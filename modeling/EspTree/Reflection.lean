import EspTree.Publication
import EspTree.Link

/-!
# Frames that come back

Both directions of a session use one key, and neither tag covers the direction bit of the hop byte.
What keeps the two ends apart is the packet type: `ACK` is the only type that both of them send and
handle.

The bridge acknowledges `STATE` messages only and a leaf everything but those, so an acknowledgement
that comes back to its sender settles nothing there.  The bridge does take it for one of the leaf if
its counter is new: `last_seen_counter` moves, and a leaf that was given up comes back.
-/

namespace EspTree

open Wire

variable {η : Type}

/-! ## What a parser makes of them -/

/-- The bytes of a frame with another protocol version and another hop byte. -/
def reflected (version hop : UInt8) (data : Bytes) : Bytes := version :: hop :: data.drop 2

/-- `g` is `f` after it came back.  With the bit `PARENT_CHECK` set the first bytes of the payload are
read as a parent address. -/
structure Reflects (f g : Frame) : Prop where
  type : g.header.packetType = f.header.packetType
  leafMac : g.header.leafMac = f.header.leafMac
  counter : g.header.txCounter = f.header.txCounter
  pskTag : g.header.pskTag = f.header.pskTag
  payload : f.payload = optBytes g.parentMac ++ g.payload
  sessionTag : g.sessionTag = f.sessionTag

/-- A frame that comes back has the same bytes under its tags. -/
theorem Reflects.tagged {f g : Frame} (h : Reflects f g) : g.header.tagged = f.header.tagged := by
  rw [Header.tagged_eq, Header.tagged_eq, h.type, h.leafMac, h.counter]

/-- A field that is known to be there or not is known from its bytes. -/
theorem optBytes_inj {n : Nat} {a b : Option (Octets n)} (hsome : a.isSome = b.isSome)
    (h : optBytes a = optBytes b) : a = b := by
  cases a with
  | none =>
    cases b with
    | none => rfl
    | some y => cases hsome
  | some x =>
    cases b with
    | none => cases hsome
    | some y => exact congrArg some (Octets.ext h)

/-- `data` are the bytes of `f`, which is sealed and names no parent. -/
structure Carries (data : Bytes) (f : Frame) : Prop where
  bytes : f.bytes = data
  parentMac : f.parentMac = none
  sessionTag : f.sessionTag.isSome

/-- The session tags of a frame under two keys are different, as they are if HMAC-SHA256 has no
collisions. -/
def KeysTold (c : Crypto) (f : Frame) (key key' : SessionKey) : Prop :=
  c.sessionTag key f.header f.payload = c.sessionTag key' f.header f.payload → key = key'

/-- So are the PSK tags of a payload and of its rest after six bytes. -/
def RestTold (c : Crypto) (f : Frame) : Prop :=
  c.pskTag f.header (f.payload.drop 6) = c.pskTag f.header f.payload → f.payload.drop 6 = f.payload

/-- A sealed frame that is opened again gives its plaintext. -/
theorem Reflects.opened {c : Crypto} {key key' : SessionKey} {leafMac : Mac} {type : PacketType}
    {hop : UInt8} {tx : UInt32} {plaintext ciphertext plaintext' : Bytes} {g : Frame}
    (h : Reflects (sealed c key leafMac type hop tx none ciphertext) g)
    (hcrypt : c.crypt key tx plaintext = some ciphertext)
    (htold : KeysTold c (sealed c key leafMac type hop tx none ciphertext) key key')
    (hparent : g.parentMac = none) (htag : validateTag c key' g)
    (hopen : c.crypt key' g.header.txCounter g.payload = some plaintext') : plaintext' = plaintext := by
  have hpayload : g.payload = ciphertext := by
    have hp := h.payload
    rw [hparent] at hp
    exact hp.symm
  have hkey : key = key' := by
    refine htold ?_
    rw [validateTag, h.sessionTag] at htag
    have hverify : c.sessionTag key' g.header g.payload =
        c.sessionTag key (sealed c key leafMac type hop tx none ciphertext).header ciphertext :=
      beq_iff_eq.mp htag
    rw [hpayload, Crypto.sessionTag_congr h.tagged] at hverify
    exact hverify.symm
  have hcounter : g.header.txCounter = tx := h.counter
  rw [hpayload, hcounter, ← hkey] at hopen
  rw [(Crypto.crypt_eq_some hopen).2, (Crypto.crypt_eq_some hcrypt).2,
    Crypto.aes256CtrCrypt_involutive]

/-- The header keeps all that the tags cover. -/
theorem header_of_parseFrame {f g : Frame} {version hop : UInt8}
    (h : parseFrame (reflected version hop f.bytes) = some g) :
    g.header = { f.header with protocolVersion := version, hopCount := hop } := by
  have hparse := congrArg Header.parse (parseFrame_eq_some h).2
  have hframe : reflected version hop f.bytes =
      { f.header with protocolVersion := version, hopCount := hop }.bytes ++
        (optBytes f.parentMac ++ (f.payload ++ optBytes f.sessionTag)) := rfl
  rwa [hframe, Frame.bytes, Header.parse_bytes_append, Header.parse_bytes_append] at hparse

/-- Bytes that come back with another version and another hop byte are parsed as the frame that was
sent. -/
theorem reflects_of_parseFrame {f g : Frame} {version hop : UInt8} (hparent : f.parentMac = none)
    (htag : f.sessionTag.isSome = isEncryptedPacket f.header.packetType)
    (h : parseFrame (reflected version hop f.bytes) = some g) : Reflects f g := by
  obtain ⟨hwf, hbytes⟩ := parseFrame_eq_some h
  have hheader := header_of_parseFrame h
  have hframe : reflected version hop f.bytes =
      { f.header with protocolVersion := version, hopCount := hop }.bytes ++
        (f.payload ++ optBytes f.sessionTag) := by
    rw [Frame.bytes, hparent]
    rfl
  have hrest : optBytes g.parentMac ++ g.payload ++ optBytes g.sessionTag =
      f.payload ++ optBytes f.sessionTag := by
    have hall := hbytes.trans hframe
    rw [Frame.bytes, hheader, List.append_cancel_left_eq] at hall
    rw [List.append_assoc]
    exact hall
  have hsame : g.sessionTag.isSome = f.sessionTag.isSome := by
    rw [hwf.tag, htag, hheader]
  have hlen : (optBytes g.sessionTag).length = (optBytes f.sessionTag).length := by
    cases hg : g.sessionTag <;> cases hf : f.sessionTag <;> rw [hg, hf] at hsame <;> simp at hsame ⊢
  obtain ⟨hpayload, htags⟩ := List.append_inj' hrest hlen
  refine ⟨?_, ?_, ?_, ?_, hpayload.symm, ?_⟩
  · rw [hheader]
  · rw [hheader]
  · rw [hheader]
  · rw [hheader]
  · exact optBytes_inj hsame htags

/-! ## The bridge -/

namespace Bridge

variable {c : Crypto} {b b' : Bridge} {k : Call}

/-- What the bridge has sent are frames of its own. -/
def SendsOwn (c : Crypto) (b : Bridge) : Prop :=
  ∀ eff ∈ b.hub.effects, eff.Outgoing c b.hub.effects

/-- What was sent down stays in the past of all that follows. -/
theorem Downlink.cons {past : List Effect} {f : Frame} {eff : Effect} (hf : Downlink c past f) :
    Downlink c (eff :: past) f := by
  cases hf with
  | plain leafMac type tx payload htype => exact .plain leafMac type tx payload htype
  | sealed key leafMac type tx ciphertext htype => exact .sealed key leafMac type tx ciphertext htype
  | ack key leafMac tx base ciphertext hin hcrypt =>
    exact .ack key leafMac tx base ciphertext (List.mem_cons_of_mem _ hin) hcrypt

theorem Effect.Outgoing.cons {past : List Effect} {eff eff' : Effect} (hout : eff.Outgoing c past) :
    eff.Outgoing c (eff' :: past) := by
  cases eff with
  | send mac data sent =>
    obtain ⟨f, hf, rfl⟩ := hout
    exact ⟨f, hf.cons, rfl⟩
  | _ => trivial

/-- One more effect. -/
theorem SendsOwn.note {m : Mac} {h : Hub} {x? x'? : Option Session} {eff : Effect}
    (hb : SendsOwn c ⟨m, h, x?⟩) (hout : eff.Outgoing c h.effects) :
    SendsOwn c ⟨m, h.note eff, x'?⟩ := by
  intro eff' hin
  rcases List.mem_cons.mp hin with rfl | hin
  · exact hout.cons
  · exact (hb eff' hin).cons

/-- Every move of the bridge sends frames of its own making only. -/
theorem SendsOwn.move {b₀ : Bridge} (hb : SendsOwn c b) (hmove : Move c k b₀ b b') : SendsOwn c b' := by
  cases hmove with
  | send hsend =>
    cases hsend with
    | hub heff _ _ =>
      unfold SendsOwn
      rw [heff]
      exact hb
    | note eff _ hout => exact hb.note hout
    | session | bump => exact hb
    | encrypt => exact hb.note trivial
  | publish | stateAck | commandFragment | hops | up | down | giveUp | retryCommand | retryConfig =>
    exact hb.note trivial
  | _ => exact hb

/-- So does every call. -/
theorem SendsOwn.call (hb : SendsOwn c b) : SendsOwn c (b.call c k) :=
  call_invariant (fun _ _ ht hmove => ht.move hmove) hb

/-- The part of a session that a frame of the bridge's own does not reach. -/
def Session.lasting (x : Session) : Session :=
  { x with lastSeenCounter := 0, txCounter := 0, drawn := 0, online := false, link := {} }

/-- A frame is sent, or the leaf is said to be online. -/
def Effect.isNotice : Effect → Bool
  | .send .. | .availability true _ => true
  | _ => false

/-- The key under which an acknowledgement was sealed. -/
def Effect.ackKey? : Effect → Option SessionKey
  | .encrypt .ack key _ _ => some key
  | _ => none

/-- Nothing was published and nothing was settled: only what is noted about the link has changed. -/
structure Unsettled (b b' : Bridge) : Prop where
  hub : b'.hub = { b.hub with effects := b'.hub.effects }
  effects : ∃ new, b'.hub.effects = new ++ b.hub.effects ∧ ∀ eff ∈ new, eff.isNotice
  session : b'.session?.map Session.lasting = b.session?.map Session.lasting

theorem Unsettled.refl (b : Bridge) : Unsettled b b :=
  ⟨rfl, ⟨[], rfl, nofun⟩, rfl⟩

/-- The frame that comes back is dropped, unless it is an acknowledgement. -/
theorem call_reflected_other {e : Env} {senderMac : Mac} {rssi : Int} {f : Frame} {type : PacketType}
    {version hop : UInt8} (htype : f.header.packetType = type.code) (hdown : isDownlink type) :
    b.call c (.frame e senderMac (reflected version hop f.bytes) rssi) = b := by
  unfold call onEspnowFrame parsePacket
  dsimp only
  cases hparse : parseFrame (reflected version hop f.bytes) with
  | none => rfl
  | some g =>
    have hg : g.type? = some type := by
      rw [Frame.type?, header_of_parseFrame hparse]
      dsimp only
      rw [htype, PacketType.ofCode?_code]
    rw [Option.filter_some]
    split
    · rfl
    next f' hf' =>
      have hsame : f' = g := by
        split at hf'
        · exact (Option.some.inj hf').symm
        · cases hf'
      subst hsame
      split
      · unfold onFrame
        split
        · rfl
        · rw [hg]
          cases type <;> first | rfl | cases hdown
      · rfl

/-- The acknowledgement of a `STATE` message settles nothing. -/
theorem dispatchAck_state {e : Env} {h : Hub} {x : Session} {plaintext : Bytes} {rssi : Int}
    {counter : UInt32} (hack : (Ack.parse plaintext).ackType = ackState) :
    dispatchAck e h x plaintext rssi counter =
      ((comeBack e h x rssi counter).1, (comeBack e h x rssi counter).2, true) := by
  unfold dispatchAck
  dsimp only
  rw [hack, if_neg (by decide), if_neg (by decide), if_neg (fun h => absurd h.1 (by decide))]

/-- What two steps leave unsettled stays so in both together. -/
theorem Unsettled.trans {b'' : Bridge} (h : Unsettled b b') (h' : Unsettled b' b'') :
    Unsettled b b'' := by
  obtain ⟨new, heff, hnotice⟩ := h.effects
  obtain ⟨new', heff', hnotice'⟩ := h'.effects
  refine ⟨?_, ⟨new' ++ new, ?_, fun eff hin => ?_⟩, h'.session.trans h.session⟩
  · rw [h'.hub, h.hub]
  · rw [heff', heff, List.append_assoc]
  · rcases List.mem_append.mp hin with hin | hin
    · exact hnotice' eff hin
    · exact hnotice eff hin

section

variable {e : Env} {m : Mac} {h : Hub} {x x' : Session} {senderMac : Mac} {rssi : Int} {g : Frame}

theorem Unsettled.of_session (hx : x'.lasting = x.lasting) :
    Unsettled ⟨m, h, some x⟩ ⟨m, h, some x'⟩ :=
  ⟨rfl, ⟨[], rfl, nofun⟩, congrArg some hx⟩

theorem Unsettled.of_note {eff : Effect} (heff : eff.isNotice) (hx : x'.lasting = x.lasting) :
    Unsettled ⟨m, h, some x⟩ ⟨m, h.note eff, some x'⟩ := by
  refine ⟨rfl, ⟨[eff], rfl, fun eff' hin => ?_⟩, congrArg some hx⟩
  rw [List.mem_singleton.mp hin]
  exact heff

/-- To come back online settles no message. -/
theorem comeBack_unsettled (counter : UInt32) : Unsettled ⟨m, h, some x⟩
    ⟨m, (comeBack e h x rssi counter).1, some (comeBack e h x rssi counter).2⟩ := by
  unfold comeBack
  split
  · exact .of_note rfl rfl
  · exact .refl _

/-- Whatever the counter says: an acknowledgement that is none of a command, a configuration or a
file settles nothing. -/
theorem handleAck_unsettled
    (hstate : ∀ plaintext, validateSessionPacket c x g = some plaintext →
      plaintext.length < Ack.size ∨ (Ack.parse plaintext).ackType = ackState) :
    Unsettled ⟨m, h, some x⟩
      ⟨m, (handleAck c e h x g rssi).1, some (handleAck c e h x g rssi).2.1⟩ := by
  unfold handleAck
  split
  · exact .refl _
  split
  · exact .refl _
  cases hopen : validateSessionPacket c x g with
  | none => exact .refl _
  | some plaintext =>
    dsimp only
    set y : Session := { x with
      lastSeenCounter := g.header.txCounter
      link := { x.link with lastSeenUptimeS := e.now / 1000 } }
    have hseen : Unsettled ⟨m, h, some x⟩ ⟨m, h, some y⟩ := .of_session rfl
    split
    · exact hseen
    next hlong =>
      rw [dispatchAck_state ((hstate plaintext hopen).resolve_left hlong)]
      exact hseen.trans (comeBack_unsettled g.header.txCounter)

theorem noteHops_unsettled : Unsettled ⟨m, h, some x⟩
    ⟨m, (noteHops h x.countPacket g).1, some (noteHops h x.countPacket g).2⟩ := by
  unfold noteHops
  dsimp only
  split
  · exact .of_session rfl
  · exact .of_note rfl rfl

/-- An acknowledgement settles nothing if all that the session can read in it is too short, or is
the acknowledgement of a state. -/
theorem onSessionFrame_unsettled (len : Nat) (htype : g.type? = some .ack)
    (hstate : ∀ x, b.session? = some x → ∀ y : Session, y.sessionKey = x.sessionKey →
      ∀ plaintext, validateSessionPacket c y g = some plaintext →
        plaintext.length < Ack.size ∨ (Ack.parse plaintext).ackType = ackState) :
    Unsettled b (b.onSessionFrame c e senderMac g len rssi).1 := by
  obtain ⟨m, h, x?⟩ := b
  unfold onSessionFrame store
  cases x? with
  | none => exact ⟨rfl, ⟨[_], rfl, fun eff hin => by rw [List.mem_singleton.mp hin]; rfl⟩, rfl⟩
  | some x =>
    dsimp only
    split
    · exact .of_note rfl rfl
    · rw [htype]
      have hhops : Unsettled ⟨m, h, some x⟩ ⟨m, (noteHops h (x.heardFrom senderMac rssi).countPacket g).1,
          some (noteHops h (x.heardFrom senderMac rssi).countPacket g).2⟩ :=
        have hheard : Unsettled ⟨m, h, some x⟩ ⟨m, h, some (x.heardFrom senderMac rssi)⟩ :=
          .of_session rfl
        hheard.trans noteHops_unsettled
      split
      · exact hhops
      · refine hhops.trans (handleAck_unsettled (hstate x rfl _ ?_))
        unfold noteHops
        dsimp only
        split <;> rfl

end

/-- An acknowledgement that comes back. -/
theorem call_reflected_ack {e : Env} {senderMac : Mac} {rssi : Int} {key : SessionKey} {leafMac : Mac}
    {tx base : UInt32} {ciphertext : Bytes} {version hop : UInt8}
    (hcrypt : c.crypt key tx (Ack.bytes ⟨ackState, 0, base⟩) = some ciphertext)
    (htold : ∀ x, b.session? = some x →
      KeysTold c (sealed c key leafMac .ack downHop tx none ciphertext) key x.sessionKey) :
    Unsettled b (b.call c (.frame e senderMac (reflected version hop
      (sealed c key leafMac .ack downHop tx none ciphertext).bytes) rssi)) := by
  set f := sealed c key leafMac .ack downHop tx none ciphertext with hf
  unfold call onEspnowFrame parsePacket
  dsimp only
  cases hparse : (parseFrame (reflected version hop f.bytes)).filter (validatePsk c) with
  | none => exact .refl b
  | some g =>
    obtain ⟨hparse, -⟩ := Option.filter_eq_some_iff.mp hparse
    have hreflects : Reflects f g := reflects_of_parseFrame rfl rfl hparse
    have htype : g.type? = some .ack := by
      rw [Frame.type?, hreflects.type]
      rfl
    have hshort : ciphertext.length = Ack.size := by
      rw [(Crypto.crypt_eq_some hcrypt).2, Crypto.length_aes256CtrCrypt, Ack.length_bytes]
    dsimp only
    split
    · unfold onFrame
      split
      · exact .refl b
      · rw [htype]
        refine onSessionFrame_unsettled _ htype fun x hx y hkey plaintext hopen => ?_
        unfold validateSessionPacket at hopen
        split at hopen
        next hvalid =>
          rw [hkey] at hvalid hopen
          cases hparent : g.parentMac with
          | none =>
            refine .inr ?_
            rw [hreflects.opened hcrypt (htold x hx) hparent hvalid.2 hopen, Ack.parse_bytes]
          | some m =>
            -- the whole payload has been read as the address of a parent
            refine .inl ?_
            have hlen := congrArg List.length hreflects.payload
            rw [hparent, List.length_append, optBytes_some, Octets.length_bytes] at hlen
            have hlen : ciphertext.length = 6 + g.payload.length := hlen
            rw [(Crypto.crypt_eq_some hopen).2, Crypto.length_aes256CtrCrypt]
            rw [hshort, Ack.size] at hlen
            rw [Ack.size]
            omega
        · cases hopen
    · exact .refl b

/-- A frame that the bridge has sent comes back to it, with another protocol version and another hop
byte: it is dropped, or settles nothing if it is an acknowledgement. -/
def Withstands (c : Crypto) (b : Bridge) : Prop :=
  ∀ mac data sent, .send mac data sent ∈ b.hub.effects →
    (∀ f x key tx plaintext, Carries data f → b.session? = some x →
      .encrypt .ack key tx plaintext ∈ b.hub.effects → KeysTold c f key x.sessionKey) →
    ∀ version hop e senderMac rssi,
      (PacketType.ofCode? (Header.parse data).packetType ≠ some .ack →
        b.call c (.frame e senderMac (reflected version hop data) rssi) = b) ∧
      Unsettled b (b.call c (.frame e senderMac (reflected version hop data) rssi))

/-- A bridge that has sent frames of its own making only withstands all of them. -/
theorem SendsOwn.withstands (h : SendsOwn c b) : Withstands c b := by
  intro mac data sent hin htold version hop e senderMac rssi
  obtain ⟨f, hf, rfl⟩ := h _ hin
  have hheader : (Header.parse f.bytes).packetType = f.header.packetType := by
    rw [Frame.bytes, Header.parse_bytes_append]
  have hother {type : PacketType} (htype : f.header.packetType = type.code) (hdown : isDownlink type) :
      b.call c (.frame e senderMac (reflected version hop f.bytes) rssi) = b :=
    call_reflected_other htype hdown
  cases hf with
  | plain leafMac type tx payload htype =>
    rw [hother rfl htype]
    exact ⟨fun _ => rfl, .refl b⟩
  | sealed key leafMac type tx ciphertext htype =>
    rw [hother rfl htype]
    exact ⟨fun _ => rfl, .refl b⟩
  | ack key leafMac tx base ciphertext hencrypt hcrypt =>
    refine ⟨fun hne => absurd ?_ hne, call_reflected_ack hcrypt fun x hx => ?_⟩
    · rw [hheader]
      rfl
    · exact htold _ x key tx _ ⟨rfl, rfl, rfl⟩ hx hencrypt

end Bridge

/-! ## The leaf -/

namespace Remote

variable {P : Platform η} {s t : Remote η}

/-- What a leaf has sent are frames of its own, and frames of others. -/
def SendsOwn (c : Crypto) (s : Remote η) : Prop :=
  ∀ mac data sent, .send mac data sent ∈ s.radio.effects →
    ∃ f, Uplink c s.config.leafMac s.radio.effects f ∧ data = f.bytes

theorem Uplink.cons {c : Crypto} {own : Mac} {past : List Effect} {f : Frame} {eff : Effect}
    (hf : Uplink c own past f) : Uplink c own (eff :: past) f := by
  cases hf with
  | discovery leafMac type hop tx payload htype => exact .discovery leafMac type hop tx payload htype
  | join hop tx payload => exact .join hop tx payload
  | sealed key type hop tx ciphertext htype => exact .sealed key type hop tx ciphertext htype
  | ack key hop tx plaintext ciphertext hin hcrypt hack =>
    exact .ack key hop tx plaintext ciphertext (List.mem_cons_of_mem _ hin) hcrypt hack
  | relayed _ hother => exact .relayed f hother

theorem SendsOwn.note {eff : Effect} (h : SendsOwn P.crypto s)
    (heff : ∀ mac data sent, eff = .send mac data sent →
      ∃ f, Uplink P.crypto s.config.leafMac s.radio.effects f ∧ data = f.bytes) :
    SendsOwn P.crypto (s.note eff) := by
  intro mac data sent hin
  rcases List.mem_cons.mp hin with hnew | hin
  · obtain ⟨f, hf, hdata⟩ := heff mac data sent hnew.symm
    exact ⟨f, hf.cons, hdata⟩
  · obtain ⟨f, hf, hdata⟩ := h mac data sent hin
    exact ⟨f, hf.cons, hdata⟩

/-- Every move of the leaf keeps to frames of its own making. -/
theorem SendsOwn.move {c : Call} {s₀ : Remote η} (h : SendsOwn P.crypto s) (hmove : Move P c s₀ s t) :
    SendsOwn P.crypto t := by
  cases hmove with
  | radio r htx hdrawn heff =>
    unfold SendsOwn
    dsimp only
    rw [heff]
    exact h
  | send mac data sent hout =>
    refine h.note fun _ _ _ heq => ?_
    cases heq
    exact hout
  | encrypt | reboot | command | configured => exact h.note nofun
  | push | resend | stateAcked => exact h.note nofun
  | _ => exact h

/-- So does every call. -/
theorem SendsOwn.call {c : Call} (h : SendsOwn P.crypto s) : SendsOwn P.crypto (s.call P c) :=
  call_invariant (fun _ _ ht hmove => ht.move hmove) h

/-- Only what a leaf notes about every frame has changed. -/
def Unmoved (s t : Remote η) : Prop :=
  ∃ hops rssiEma, t = { s with route := { s.route with
    hopsToBridge := hops, parentLinkRssiEma := rssiEma } }

/-- Nothing has moved. -/
theorem Unmoved.refl (s : Remote η) : Unmoved s s := ⟨_, _, rfl⟩

/-- To take note of the signal moves nothing of the session. -/
theorem unmoved_noteRssi (s : Remote η) (senderMac : Mac) (rssi : Int) :
    Unmoved s (s.noteRssi senderMac rssi) := by
  unfold noteRssi
  split
  · exact ⟨_, _, rfl⟩
  · exact .refl s

theorem Unmoved.noteHops (h : Unmoved s t) (f : Frame) : Unmoved s (t.noteHops f) := by
  obtain ⟨hops, rssiEma, rfl⟩ := h
  unfold Remote.noteHops
  split
  · exact ⟨_, _, rfl⟩
  · exact ⟨hops, rssiEma, rfl⟩

/-- A frame of the leaf's own comes back; `hlocal` is what the dispatch makes of it. -/
theorem call_reflected {e : Env} {senderMac : Mac} {rssi : Int} {f : Frame} {version hop : UInt8}
    (hmac : f.header.leafMac = s.config.leafMac)
    (hlocal : ∀ g t, parseFrame (reflected version hop f.bytes) = some g → validatePsk P.crypto g →
      t.session = s.session → (handleLocally P e t senderMac g rssi).1 = t) :
    Unmoved s (s.call P (.frame e senderMac (reflected version hop f.bytes) rssi)) := by
  unfold call onEspnowFrame
  dsimp only
  cases hparse : parseFrame (reflected version hop f.bytes) with
  | none => exact .refl s
  | some g =>
    dsimp only
    unfold onFrame
    split
    · exact .refl s
    next hpsk =>
    split
    · exact .refl s
    split
    · exact .refl s
    dsimp only
    have hrssi := unmoved_noteRssi s senderMac rssi
    split
    · exact hrssi
    have hours : (s.noteRssi senderMac rssi).shouldHandleLocally g := by
      rw [shouldHandleLocally_noteRssi]
      unfold shouldHandleLocally
      rw [header_of_parseFrame hparse]
      simp [hmac]
    rw [if_pos hours]
    rw [hlocal g _ hparse (not_not.mp hpsk) ((Arrived.noteRssi s senderMac rssi).noteHops g).session]
    exact hrssi.noteHops g

/-- An acknowledgement that is none of a `STATE` message changes nothing. -/
theorem handleAck_other {e : Env} {g : Frame}
    (hack : ∀ plaintext, s.openFrame P g = some plaintext →
      (Ack.parse plaintext).ackType ≠ ackState) : (s.handleAck P e g).1 = s := by
  unfold handleAck
  split
  · rfl
  · cases hopen : s.openFrame P g with
    | none => rfl
    | some plaintext =>
      dsimp only
      split
      · rfl
      · rw [if_neg (hack plaintext hopen)]

/-- A frame of its own session that a leaf has sent comes back to it. -/
def Withstands (P : Platform η) (s : Remote η) : Prop :=
  ∀ mac data sent, .send mac data sent ∈ s.radio.effects →
    (Header.parse data).leafMac = s.config.leafMac →
    (∀ type, PacketType.ofCode? (Header.parse data).packetType = some type →
      type ≠ .discover ∧ type ≠ .discoverAnnounce) →
    (∀ f, Carries data f → RestTold P.crypto f ∧ ∀ key tx plaintext,
      .encrypt .ack key tx plaintext ∈ s.radio.effects →
        KeysTold P.crypto f key s.session.sessionKey) →
    ∀ version hop e senderMac rssi,
      Unmoved s (s.call P (.frame e senderMac (reflected version hop data) rssi))

/-- A leaf that has sent frames of its own making only withstands all of them. -/
theorem SendsOwn.withstands (h : SendsOwn P.crypto s) : Withstands P s := by
  intro mac data sent hin hmac hdiscovery htold version hop e senderMac rssi
  obtain ⟨f, hf, rfl⟩ := h mac data sent hin
  rw [Frame.bytes, Header.parse_bytes_append] at hmac hdiscovery
  have hother {type : PacketType} (htype : f.header.packetType = type.code)
      (hup : type = .join ∨ type = .heartbeat ∨ type = .state ∨ type = .schemaPush) :
      Unmoved s (s.call P (.frame e senderMac (reflected version hop f.bytes) rssi)) := by
    refine call_reflected hmac fun g t hparse _ _ => ?_
    have hg : g.type? = some type := by
      rw [Frame.type?, header_of_parseFrame hparse]
      dsimp only
      rw [htype, PacketType.ofCode?_code]
    unfold handleLocally
    rw [hg]
    rcases hup with rfl | rfl | rfl | rfl <;> rfl
  cases hf with
  | discovery leafMac type hop tx payload htype =>
    obtain ⟨hdiscover, hannounce⟩ := hdiscovery type (PacketType.ofCode?_code type)
    exact absurd htype (not_or.mpr ⟨hdiscover, hannounce⟩)
  | join => exact hother rfl (.inl rfl)
  | sealed key type hop tx ciphertext htype => exact hother rfl (.inr htype)
  | relayed _ hne => exact absurd hmac hne
  | ack key hop' tx plaintext ciphertext hencrypt hcrypt hack =>
    obtain ⟨hrest, hkeys⟩ := htold _ ⟨rfl, rfl, rfl⟩
    refine call_reflected hmac fun g t hparse hpsk hsession => ?_
    have hreflects := reflects_of_parseFrame rfl rfl hparse
    have hg : g.type? = some .ack := by
      rw [Frame.type?, hreflects.type]
      rfl
    unfold handleLocally
    rw [hg]
    refine handleAck_other fun plaintext' hopen => ?_
    have hparent : g.parentMac = none := by
      cases hparent : g.parentMac with
      | none => rfl
      | some m =>
        -- the payload has lost its first bytes, and the PSK tag would have to hold all the same
        have hpayload : ciphertext = m.bytes ++ g.payload := by
          have hp := hreflects.payload
          rw [hparent] at hp
          exact hp
        have hdrop : ciphertext.drop 6 = g.payload := by
          rw [hpayload]
          exact List.drop_left' m.length_bytes
        have hfull : ciphertext.drop 6 = ciphertext := by
          refine hrest ?_
          unfold validatePsk Crypto.verifyPskTag at hpsk
          rw [Bool.and_eq_true, beq_iff_eq, Crypto.pskTag_congr hreflects.tagged, hreflects.pskTag,
            ← hdrop] at hpsk
          have hsealed := verifyPskTag_encodeHeader hpsk.1 s.config.leafMac .ack hop' tx ciphertext
          unfold Crypto.verifyPskTag at hsealed
          rw [Bool.and_eq_true, beq_iff_eq] at hsealed
          exact hpsk.2.trans hsealed.2.symm
        have hlen := congrArg List.length hpayload
        rw [List.length_append, Octets.length_bytes, ← hdrop, hfull] at hlen
        omega
    obtain ⟨hvalid, hplain⟩ := openFrame_eq_some.mp hopen
    rw [validateSession, Bool.and_eq_true, hsession] at hvalid
    rw [hsession] at hplain
    rw [hreflects.opened hcrypt (hkeys key tx plaintext hencrypt) hparent hvalid.2 hplain]
    exact hack

end Remote

/-! ## Both ends -/

namespace Link

/-- A leaf restarts with its entities registered and under its own address. -/
def KeepsAddress (l : Link η) : Event η → Prop
  | .restartLeaf fresh => fresh.Registered ∧ fresh.config.leafMac = l.leaf.config.leafMac
  | _ => True

/-- In every run: a frame of the bridge's own that comes back is dropped by it or, if it is an
acknowledgement, settles nothing there, and a leaf does not act on a frame of its own session.  The
hop byte would tell the direction, but it is not authenticated, and the bridge only logs it. -/
theorem reflected_unsettled (P : Remote.Platform η) (l : Link η)
    (h : Transition.Reachable Init KeepsAddress (step P) l) :
    l.bridge.Withstands P.crypto ∧ l.leaf.Withstands P := by
  have hown : l.bridge.SendsOwn P.crypto ∧ l.leaf.SendsOwn P.crypto := by
    refine Transition.Reachable.invariant
      (I := fun l => l.bridge.SendsOwn P.crypto ∧ l.leaf.SendsOwn P.crypto)
      (fun l hinit => ⟨?_, ?_⟩) (fun l ev hl hok => ?_) h
    · intro eff hin
      rw [hinit.effects] at hin
      cases hin
    · intro mac data sent hin
      rw [hinit.leaf.session.2.2.2] at hin
      cases hin
    · cases ev with
      | leaf c => exact ⟨hl.1, hl.2.call⟩
      | bridge k => exact ⟨hl.1.call, hl.2⟩
      | restartLeaf fresh =>
        refine ⟨hl.1, fun mac data sent hin => ?_⟩
        dsimp only [step, Remote.restart]
        rw [hok.2]
        exact hl.2 mac data sent hin
  exact ⟨hown.1.withstands, hown.2.withstands⟩

/-! ## An acknowledgement comes back -/

/-- A leaf joins and is sent a command, its state is acknowledged. -/
def ackedEvents : List (Event Unit) :=
  (Bridge.joinCalls ++ [.command (Bridge.sampleEnv 1290) 0 [1],
    Bridge.receives 1300 (Bridge.stateFrom 4 1),
    .confirmState (Bridge.sampleEnv 1310) 4 Bridge.sample.leafMac]).map .bridge

def ackedLink : Link Unit := Transition.runFrom (step .sample) sample ackedEvents

theorem ackedLink_reachable : Transition.Reachable Init KeepsAddress (step .sample) ackedLink := by
  have hstart : Transition.Reachable Init KeepsAddress (step .sample) sample := .start sample_init
  exact hstart.runFrom ⟨trivial, trivial, trivial, trivial, trivial, trivial, trivial⟩

/-- The acknowledgement, with its direction turned round. -/
def ackedData : Bytes := ackedLink.bridgeSent.headD []

def returnedCall : Bridge.Call := Bridge.receives 1320 (reflected protocolVer 0 ackedData)

theorem ackedData_sent : .send Bridge.sample.leafMac ackedData true ∈ ackedLink.bridge.hub.effects := by
  decide +kernel

/-- All acknowledgements are sealed under the present key. -/
theorem ackedLink_keys {x : Bridge.Session} {key : SessionKey} {tx : UInt32} {plaintext : Bytes}
    (hx : ackedLink.bridge.session? = some x)
    (hin : .encrypt .ack key tx plaintext ∈ ackedLink.bridge.hub.effects) : key = x.sessionKey := by
  have hkeys : ackedLink.bridge.session?.all fun x =>
      ackedLink.bridge.hub.effects.all fun eff => eff.ackKey?.all (· == x.sessionKey) := by
    decide +kernel
  rw [hx, Option.all_some, List.all_eq_true] at hkeys
  exact beq_iff_eq.mp (hkeys _ hin)

/-- The acknowledgement of a state comes back to the bridge that has sent it. -/
theorem reflected_unsettled_ackedLink :
    ackedLink.bridge.Unsettled (ackedLink.bridge.call .sample returnedCall) :=
  ((reflected_unsettled .sample ackedLink ackedLink_reachable).1 _ _ _ ackedData_sent
    (fun _ _ _ _ _ _ hx hin _ => ackedLink_keys hx hin) protocolVer 0 _ _ _).2

/-- The bridge takes it for an acknowledgement of the leaf. -/
theorem reflected_taken :
    Transition.Reachable Init KeepsAddress (step .sample) ackedLink ∧
      .send Bridge.sample.leafMac ackedData true ∈ ackedLink.bridge.hub.effects ∧
      ackedLink.bridge.session?.map Bridge.Session.lastSeenCounter = some 4 ∧
      (ackedLink.bridge.call .sample returnedCall).session?.map Bridge.Session.lastSeenCounter =
        some 5 :=
  ⟨ackedLink_reachable, ackedData_sent, by decide +kernel, by decide +kernel⟩

end Link

end EspTree
