import EspTree.Link
import EspTree.Remote.Requests

/-!
# What a `DEAUTH` does to a leaf

The bridge answers a `STATE`, `HEARTBEAT` or `ACK` frame that it cannot use with a `DEAUTH` that
names the frame by packet type, counter and fingerprint.  The leaf looks the three up in its list of
outstanding requests, but the result only decides what it logs: it gives up its session and joins
again whether the `DEAUTH` names a request or not.

A `DEAUTH` for a `STATE` or `ACK` frame is recognised as long as fewer than eight further requests
were recorded and the leaf has stayed in its session.  Heartbeats are not recorded at all.
-/

namespace EspTree

open Wire

variable {η : Type}

/-! ## The list of outstanding requests -/

namespace Remote

/-- The list holds the last eight requests. -/
theorem foldl_remember {l : List OutstandingRequest} (hl : l.length ≤ 8)
    (new : List OutstandingRequest) :
    new.foldl remember l = (l ++ new).drop ((l ++ new).length - 8) := by
  induction new generalizing l with
  | nil => simp [hl]
  | cons r new ih =>
    rw [List.foldl_cons]
    by_cases hlt : l.length < 8
    · have hstep : remember l r = l ++ [r] := by rw [remember, if_pos hlt]
      rw [hstep, ih (by simp; omega), List.append_assoc]
      rfl
    · have hstep : remember l r = l.drop 1 ++ [r] := by rw [remember, if_neg hlt]
      rw [hstep, ih (by simp; omega)]
      obtain ⟨a, l, rfl⟩ : ∃ a rest, l = a :: rest := by
        cases l with
        | nil => simp at hlt
        | cons a rest => exact ⟨a, rest, rfl⟩
      have hlen : l.length = 7 := by simp only [List.length_cons] at hl hlt; omega
      simp only [List.drop_succ_cons, List.drop_zero, List.append_assoc, List.nil_append,
        List.cons_append, List.length_cons, List.length_append, hlen]
      rw [show 7 + (new.length + 1) + 1 - 8 = (7 + (new.length + 1) - 8) + 1 by omega,
        List.drop_succ_cons]

/-- The list of outstanding requests never has more than eight. -/
theorem length_foldl_remember {l : List OutstandingRequest} (hl : l.length ≤ 8)
    (new : List OutstandingRequest) : (new.foldl remember l).length ≤ 8 := by
  rw [foldl_remember hl, List.length_drop]
  omega

/-- The eight requests that a leaf remembers were all recorded after draw `n`. -/
def EightSince (s : Remote η) (n : Nat) : Prop :=
  ∃ draws : List Nat, draws.length = 8 ∧ draws.Pairwise (· < ·) ∧
    (∀ d ∈ draws, n < d ∧ d < s.radio.drawn) ∧
    s.radio.outstanding.map (·.txCounter) = draws.map (s.radio.origin + UInt32.ofNat ·)

/-- No request has had eight after it as long as fewer than eight are outstanding. -/
theorem not_eightSince {s : Remote η} {n : Nat} (h : s.radio.outstanding.length < 8) :
    ¬ s.EightSince n := by
  rintro ⟨draws, hlength, -, -, hdraws⟩
  have hlengths := congrArg List.length hdraws
  rw [List.length_map, List.length_map, hlength] at hlengths
  omega

/-- A request that was booked is in the list, or eight later ones are. -/
theorem Booked.mem_outstanding {P : Platform η} {s t : Remote η}
    {new : List (Nat × OutstandingRequest)} (h : Booked P s new t)
    (hs : s.radio.outstanding.length ≤ 8) {n : Nat} {req : OutstandingRequest}
    (hin : (n, req) ∈ new) (height : ¬ t.EightSince n) : req ∈ t.radio.outstanding := by
  obtain ⟨before, after, rfl⟩ := List.append_of_mem hin
  set older := s.radio.outstanding ++ before.map Prod.snd ++ [req] with holder
  have hlist : t.radio.outstanding =
      (older ++ after.map Prod.snd).drop ((older ++ after.map Prod.snd).length - 8) := by
    rw [h.outstanding, foldl_remember hs]
    simp [holder]
  rcases Nat.lt_or_ge after.length 8 with hlt | hge
  · rw [hlist]
    have hlen : older.length = s.radio.outstanding.length + before.length + 1 := by
      simp [holder, Nat.add_assoc]
    have hdrop : (older ++ after.map Prod.snd).length - 8 ≤ older.length - 1 := by
      simp only [List.length_append, List.length_map]
      omega
    rw [List.drop_append_of_le_length (by omega)]
    refine List.mem_append_left _ ?_
    rw [holder, List.drop_append_of_le_length (by simp at hdrop ⊢; omega)]
    exact List.mem_append_right _ (List.mem_singleton_self req)
  · -- eight later requests: the draws of the last eight of them
    refine absurd ⟨(after.drop (after.length - 8)).map Prod.fst, ?_, ?_, ?_, ?_⟩ height
    · rw [List.length_map, List.length_drop]
      omega
    · have hsorted := h.sorted
      rw [List.map_append, List.map_cons] at hsorted
      have hafter := ((List.pairwise_append.mp hsorted).2.1).of_cons
      exact hafter.sublist ((List.drop_sublist _ _).map Prod.fst)
    · intro d hd
      obtain ⟨p, hp, rfl⟩ := List.mem_map.mp hd
      have hp := List.mem_of_mem_drop hp
      have hsorted := h.sorted
      rw [List.map_append, List.map_cons] at hsorted
      have hlater := List.rel_of_pairwise_cons (List.pairwise_append.mp hsorted).2.1
        (List.mem_map_of_mem hp)
      exact ⟨hlater, (h.draws p (List.mem_append_right _ (List.mem_cons_of_mem _ hp))).2.1⟩
    · have hskip : (older ++ after.map Prod.snd).length - 8 = older.length + (after.length - 8) := by
        rw [List.length_append, List.length_map]
        omega
      rw [hlist, hskip, List.drop_length_add_append, ← List.map_drop, List.map_map, List.map_map,
        h.origin]
      refine List.map_congr_left fun p hp => ?_
      exact (h.draws p (List.mem_append_right _ (List.mem_cons_of_mem _
        (List.mem_of_mem_drop hp)))).2.2

/-! ## Joining again -/

/-- A leaf that takes the frame in `data` as a `DEAUTH`. -/
structure TakesDeauth (P : Platform η) (s : Remote η) (data : Bytes) (d : Frame) : Prop where
  parsed : parseFrame data = some d
  type : d.type? = some .deauth
  passes : s.Passes P d
  leafMac : d.header.leafMac = s.config.leafMac
  size : d.payload.length = Deauth.size

/-- A leaf has given up its session and tries to join again: with a `JOIN` to its parent, or with a
new discovery when it has none or the `JOIN` could not be sent. -/
structure Rejoins (P : Platform η) (e : Env) (s t : Remote η) : Prop where
  joined : t.session.joined = false
  normal : t.session.normal = false
  keyless : t.session.sessionKeyValid = false
  forgotten : t.radio.outstanding = []
  discovering : t.discovery.discovering = true
  again : (t.session.remoteNonce = e.nonce 0 ∧ t.discovery.joinInFlight = true ∧
      ∃ hop tx join, join.remoteNonce = e.nonce 0 ∧ t.radio.effects = .send s.route.parentMac
        (plain P.crypto s.config.leafMac .join hop tx none (Join.bytes join)).bytes true ::
          s.radio.effects) ∨
    (t.session.remoteNonce = e.nonce 1 ∧ t.route.parentValid = false ∧
      t.discovery.sweepComplete = false)

variable {P : Platform η} {e : Env}

/-- A discovery cycle that starts makes the leaf join again. -/
theorem startDiscoveryCycle_rejoins (s t : Remote η) :
    Rejoins P e s (t.startDiscoveryCycle P e (e.nonce 1) false) := by
  refine ⟨rfl, rfl, rfl, rfl, ?_, .inr ⟨rfl, rfl, ?_⟩⟩
  · dsimp only [startDiscoveryCycle, Discovery.started]
    split <;> rfl
  · dsimp only [startDiscoveryCycle, Discovery.started]
    split <;> rfl

/-- A session that is cleared leaves no frame behind. -/
theorem clearSessionState_effects (s : Remote η) (preserveRoute : Bool) :
    (s.clearSessionState P e preserveRoute).radio.effects = s.radio.effects ∧
      (s.clearSessionState P e preserveRoute).config = s.config ∧
      (s.clearSessionState P e preserveRoute).route.parentMac = s.route.parentMac := by
  unfold clearSessionState
  dsimp only
  cases preserveRoute <;> split <;> exact ⟨rfl, rfl, rfl⟩

/-- So does a `JOIN` that goes to the parent that the leaf still has. -/
theorem sendJoin_rejoins {s t : Remote η} (hcleared : t.session.joined = false)
    (hnormal : t.session.normal = false) (hkeyless : t.session.sessionKeyValid = false)
    (hforgotten : t.radio.outstanding = []) (hdiscovering : t.discovery.discovering = true)
    (hnonce : t.session.remoteNonce = e.nonce 0) (heffects : t.radio.effects = s.radio.effects)
    (hconfig : t.config = s.config) (hparent : t.route.parentMac = s.route.parentMac)
    (hsent : (t.sendJoin P e).2 = true) : Rejoins P e s (t.sendJoin P e).1 := by
  unfold sendJoin at hsent ⊢
  split
  next h => rw [if_pos h] at hsent; cases hsent
  next h =>
  rw [if_neg h] at hsent
  have hok : e.sendOk t.radio.effects.length = true := hsent
  refine ⟨hcleared, hnormal, hkeyless, hforgotten, hdiscovering, .inl ⟨hnonce, hok, t.upHop,
    t.radio.txCounter, t.joinRequest P, hnonce, ?_⟩⟩
  rw [← heffects, ← hconfig, ← hparent, ← hok]
  rfl

/-- Whatever a `DEAUTH` names, the leaf joins again. -/
theorem handleDeauth_rejoins {s : Remote η} {d : Frame}
    (hleaf : d.header.leafMac = s.config.leafMac) (hsize : d.payload.length = Deauth.size) :
    Rejoins P e s (s.handleDeauth P e d).1 := by
  have hlocal : s.shouldHandleLocally d = true := by simp [shouldHandleLocally, hleaf]
  obtain ⟨heffects, hconfig, hparent⟩ := clearSessionState_effects (P := P) (e := e) s true
  unfold handleDeauth
  rw [if_neg (by simp [hlocal]), if_neg (not_not.mpr hsize)]
  dsimp only
  split
  · split
    next hsent => exact sendJoin_rejoins rfl rfl rfl rfl rfl rfl heffects hconfig hparent hsent
    · exact startDiscoveryCycle_rejoins s _
  · exact startDiscoveryCycle_rejoins s _

/-- It matters for joining again only who the parent is and what the radio does. -/
theorem Rejoins.congr {s s' t : Remote η} (h : Rejoins P e s' t)
    (hparent : s'.route.parentMac = s.route.parentMac) (hconfig : s'.config = s.config)
    (hradio : s'.radio = s.radio) : Rejoins P e s t := by
  refine { h with again := ?_ }
  rw [← hparent, ← hconfig, ← hradio]
  exact h.again

/-- A `DEAUTH` that the leaf takes makes it join again, whatever it names. -/
theorem TakesDeauth.rejoins {s : Remote η} {data : Bytes} {d : Frame} (h : s.TakesDeauth P data d)
    (e : Env) (senderMac : Mac) (rssi : Int) :
    Rejoins P e s (s.call P (.frame e senderMac data rssi)) := by
  have hplain : isEncryptedPacket d.header.packetType = false := by
    have htype : PacketType.ofCode? d.header.packetType = some .deauth := h.type
    rw [isEncryptedPacket, htype]
    rfl
  have hlocal : s.shouldHandleLocally d := by simp [shouldHandleLocally, h.leafMac]
  have harrived := (Arrived.noteRssi s senderMac rssi).noteHops d
  have hparent : ((s.noteRssi senderMac rssi).noteHops d).route.parentMac = s.route.parentMac := by
    unfold noteHops noteRssi
    split_ifs <;> rfl
  set t := (s.noteRssi senderMac rssi).noteHops d with ht
  have hcall : s.call P (.frame e senderMac data rssi) = (t.handleDeauth P e d).1 := by
    unfold call onEspnowFrame
    dsimp only
    rw [h.parsed]
    dsimp only
    unfold onFrame
    rw [if_neg (not_not.mpr h.passes.psk), if_neg (Nat.not_le.mpr h.passes.hops),
      if_neg (not_not.mpr h.passes.parent)]
    dsimp only
    rw [hplain, if_neg (fun h => Bool.false_ne_true h.1), shouldHandleLocally_noteRssi,
      if_pos hlocal, ← ht]
    unfold handleLocally
    rw [h.type]
  rw [hcall]
  refine (handleDeauth_rejoins ?_ h.size).congr hparent harrived.config harrived.radio
  rw [harrived.config]
  exact h.leafMac

end Remote

/-! ## The answers of the bridge -/

namespace Bridge

/-- The `DEAUTH` that `send_deauth_` builds for the frame `f`. -/
def deauthFor (c : Crypto) (leafMac : Mac) (tx : UInt32) (f : Frame) : Frame :=
  plain c leafMac .deauth downHop tx none (Deauth.bytes ⟨1, f.header.packetType, f.header.txCounter,
    c.pskTag ⟨protocolVer, 0, f.header.packetType, leafMac, f.header.txCounter, Octets.zero 4⟩
      f.payload⟩)

/-- Every `DEAUTH` that goes out on the way from `h` to `h'` is for the frame `f`. -/
def Replies (c : Crypto) (f : Frame) (h h' : Hub) : Prop :=
  ∃ effs, h'.effects = effs ++ h.effects ∧ ∀ mac data sent, .send mac data sent ∈ effs →
    ∃ d : Frame, data = d.bytes ∧
      (d.header.packetType ≠ PacketType.deauth.code ∨ ∃ leafMac tx, d = deauthFor c leafMac tx f)

section

variable {c : Crypto} {e : Env} {f : Frame} {h h' h'' : Hub}

theorem Replies.quiet (heff : h'.effects = h.effects) : Replies c f h h' :=
  ⟨[], heff, by simp⟩

/-- The replies to a frame in two steps are its replies in both together. -/
theorem Replies.trans (h₁ : Replies c f h h') (h₂ : Replies c f h' h'') : Replies c f h h'' := by
  obtain ⟨effs, heffs, hsent⟩ := h₁
  obtain ⟨effs', heffs', hsent'⟩ := h₂
  refine ⟨effs' ++ effs, by rw [heffs', heffs, List.append_assoc], ?_⟩
  intro mac data sent hin
  rcases List.mem_append.mp hin with hin | hin
  · exact hsent' mac data sent hin
  · exact hsent mac data sent hin

theorem Replies.note (h : Hub) (eff : Effect) (hno : ∀ mac data sent, eff ≠ .send mac data sent) :
    Replies c f h (h.note eff) := by
  refine ⟨[eff], rfl, fun mac data sent hin => ?_⟩
  exact absurd (List.mem_singleton.mp hin).symm (hno mac data sent)

/-- What goes out is no `DEAUTH`, or it is the one for this frame. -/
theorem Replies.transmit (h : Hub) (mac : Mac) (d : Frame)
    (hd : d.header.packetType ≠ PacketType.deauth.code ∨ ∃ leafMac tx, d = deauthFor c leafMac tx f) :
    Replies c f h (h.transmit e mac d).1 := by
  refine ⟨[.send mac d.bytes (e.sendErr h.effects.length == .ok)], rfl, ?_⟩
  rintro _ _ _ hin
  cases List.mem_singleton.mp hin
  exact ⟨d, rfl, hd⟩

theorem sendDeauth_replies (h : Hub) (mac : Mac) (x : Session) :
    Replies c f h (sendDeauth c e h mac x f).1 :=
  .transmit h mac _ (.inr ⟨x.leafMac, x.txCounter, rfl⟩)

theorem sendStateAck_replies (h : Hub) (mac : Mac) (x : Session) (base : UInt32) :
    Replies c f h (sendStateAck c e h mac x base).1 := by
  unfold sendStateAck sendEncrypted sealAndSend
  split
  · exact .quiet rfl
  split
  · exact .quiet rfl
  dsimp only
  split
  · exact .quiet rfl
  · exact .trans (.note h _ (by rintro _ _ _ ⟨⟩)) (.transmit _ _ _ (.inl
      (by exact (by decide : PacketType.ack.code ≠ PacketType.deauth.code))))

theorem markOnline_replies (h : Hub) (x : Session) (rssi : Int) (counter : UInt32) (reported : Int) :
    Replies c f h (markOnline e h x rssi counter reported).1 :=
  .note h _ (by rintro _ _ _ ⟨⟩)

theorem stateMessage_replies (h : Hub) (x : Session) (senderMac : Mac) (g : Frame) (rssi : Int)
    (view : EntityPayload) (base : UInt32) (a : FragmentAssembly) :
    Replies c f h (stateMessage e h x senderMac g rssi view base a).1 := by
  unfold stateMessage
  dsimp only
  refine .trans ?_ (.note _ (.publishState _ _ _ _ _) (by rintro _ _ _ ⟨⟩))
  split_ifs <;> first | exact markOnline_replies .. | exact .quiet rfl

theorem handleState_replies (h : Hub) (x : Session) (senderMac : Mac) (rssi : Int) :
    Replies c f h (handleState c e h x senderMac f rssi).1 := by
  unfold handleState storeState
  dsimp only
  split
  · exact .quiet rfl
  split
  · exact sendDeauth_replies h senderMac x
  split
  · exact .quiet rfl
  split
  · split
    · exact .quiet rfl
    split
    · exact .quiet rfl
    · exact stateMessage_replies ..
  split
  · exact sendStateAck_replies ..
  · exact .quiet rfl

theorem becomeNormal_replies (h : Hub) (x : Session) (rssi : Int) (counter : UInt32)
    (reported : Int) : Replies c f h (becomeNormal e h x rssi counter reported).1 := by
  unfold becomeNormal
  split
  · exact markOnline_replies ..
  · exact .quiet rfl

theorem handleHeartbeat_replies (h : Hub) (x : Session) (senderMac : Mac) (rssi : Int) :
    Replies c f h (handleHeartbeat c e h x senderMac f rssi).1 := by
  unfold handleHeartbeat
  split
  · exact .quiet rfl
  split
  · exact .quiet rfl
  split
  · exact .quiet rfl
  split
  · exact .quiet rfl
  · exact becomeNormal_replies ..

theorem comeBack_replies (h : Hub) (x : Session) (rssi : Int) (counter : UInt32) :
    Replies c f h (comeBack e h x rssi counter).1 := by
  unfold comeBack
  split
  · exact markOnline_replies ..
  · exact .quiet rfl

theorem dispatchAck_replies (h : Hub) (x : Session) (plaintext : Bytes) (rssi : Int)
    (counter : UInt32) : Replies c f h (dispatchAck e h x plaintext rssi counter).1 := by
  unfold dispatchAck configAcked
  dsimp only
  split
  · exact .note h _ (by rintro _ _ _ ⟨⟩)
  split
  · split
    · exact .quiet rfl
    · refine .trans (.trans ?_ (comeBack_replies ..)) (.note _ (.configResult _ _)
        (by rintro _ _ _ ⟨⟩))
      exact .quiet rfl
  · refine .trans ?_ (comeBack_replies ..)
    split <;> exact .quiet rfl

theorem handleAck_replies (h : Hub) (x : Session) (rssi : Int) :
    Replies c f h (handleAck c e h x f rssi).1 := by
  unfold handleAck
  split
  · exact .quiet rfl
  split
  · exact .quiet rfl
  split
  · exact .quiet rfl
  dsimp only
  split
  · exact .quiet rfl
  · exact dispatchAck_replies ..

/-- To a frame of its session the bridge answers with no other `DEAUTH` than the one for this frame.
-/
theorem onSessionFrame_replies (b : Bridge) (senderMac : Mac) (len : Nat) (rssi : Int) :
    Replies c f b.hub (b.onSessionFrame c e senderMac f len rssi).1.hub := by
  unfold onSessionFrame
  split
  · exact sendDeauth_replies b.hub senderMac _
  dsimp only
  split
  · exact sendDeauth_replies b.hub senderMac _
  have hhops (x : Session) : Replies c f b.hub (noteHops b.hub x f).1 := by
    unfold noteHops
    dsimp only
    split
    · exact .quiet rfl
    · exact .note _ _ (by rintro _ _ _ ⟨⟩)
  split
  · exact hhops _
  split
  · exact (hhops _).trans (handleState_replies ..)
  · exact (hhops _).trans (handleHeartbeat_replies ..)
  · exact (hhops _).trans (handleAck_replies ..)

/-- The bridge answers the frame `g` with the `DEAUTH` `d`: it receives a frame with its type, leaf
address, counter and payload, which is what relays keep, and hands `d` to the radio. -/
structure Deauths (c : Crypto) (g d : Frame) : Prop where
  type : d.type? = some .deauth
  sent : ∃ (b : Bridge) (e : Env) (senderMac : Mac) (data : Bytes) (rssi : Int) (f : Frame),
    parsePacket c data = some f ∧ f.header.packetType = g.header.packetType ∧
    f.header.leafMac = g.header.leafMac ∧ f.header.txCounter = g.header.txCounter ∧
    f.payload = g.payload ∧ ∃ effs mac data' sent,
      (b.call c (.frame e senderMac data rssi)).hub.effects = effs ++ b.hub.effects ∧
      .send mac data' sent ∈ effs ∧ parseFrame data' = some d

/-- The answer is a frame that the parsers accept. -/
theorem deauthFor_wellFormed (leafMac : Mac) (tx : UInt32) (f : Frame) :
    (deauthFor c leafMac tx f).WellFormed := by
  refine plain_wellFormed rfl (by decide) ?_
  rw [Deauth.length_bytes]
  decide

/-- A `DEAUTH` for a `STATE` or `ACK` frame carries what the leaf has recorded of it. -/
theorem Deauths.payload {g d : Frame} (h : Deauths c g d)
    (htype : g.type? = some .state ∨ g.type? = some .ack) :
    d.payload = Deauth.bytes ⟨1, g.header.packetType, g.header.txCounter, c.pskTag
      ⟨protocolVer, 0, g.header.packetType, d.header.leafMac, g.header.txCounter, Octets.zero 4⟩
        g.payload⟩ := by
  obtain ⟨b, e, senderMac, data, rssi, f, hf, hcode, -, htx, hpayload, effs, mac, data', sent, heffs,
    hin, hd⟩ := h.sent
  have hreplies : Replies c f b.hub (b.call c (.frame e senderMac data rssi)).hub := by
    change Replies c f b.hub (b.onEspnowFrame c e senderMac data rssi).1.hub
    have hftype : f.type? = g.type? := by rw [Frame.type?, hcode, Frame.type?]
    unfold onEspnowFrame
    rw [hf]
    dsimp only
    split
    · unfold onFrame
      split
      · exact .quiet rfl
      · rw [hftype]
        rcases htype with htype | htype <;>
          · rw [htype]
            exact onSessionFrame_replies ..
    · exact .quiet rfl
  obtain ⟨effs', heffs', hsent⟩ := hreplies
  obtain rfl : effs = effs' := List.append_cancel_right (heffs.symm.trans heffs')
  obtain ⟨d', rfl, hanswer⟩ := hsent mac data' sent hin
  have hheader := Remote.header_of_bytes hd
  rcases hanswer with hne | ⟨leafMac, tx, rfl⟩
  · refine absurd ?_ hne
    rw [← hheader]
    exact (PacketType.code_of_ofCode? h.type).symm
  · obtain rfl := Option.some.inj ((parseFrame_bytes (deauthFor_wellFormed leafMac tx f)).symm.trans hd)
    rw [← hcode, ← htx, ← hpayload]
    rfl

end

end Bridge

/-! ## In every run -/

namespace Remote

variable {P : Platform η}

/-- The call hands the `STATE` or `ACK` frame `g` of the leaf to the radio. -/
structure Requests (P : Platform η) (s : Remote η) (c : Call) (g : Frame) : Prop where
  leafMac : g.header.leafMac = s.config.leafMac
  type : g.type? = some .state ∨ g.type? = some .ack
  sent : ∃ effs mac data sent, (s.call P c).radio.effects = effs ++ s.radio.effects ∧
    .send mac data sent ∈ effs ∧ parseFrame data = some g

theorem Requests.isRequest {s : Remote η} {c : Call} {g : Frame} (h : s.Requests P c g) :
    g.IsRequest s.config.leafMac where
  leafMac := h.leafMac
  type := by
    rcases h.type with h | h
    · exact .inl (PacketType.code_of_ofCode? h).symm
    · exact .inr (PacketType.code_of_ofCode? h).symm

/-- A request in the list is the one that the `DEAUTH` for its frame names. -/
theorem matches_of_mem {s : Remote η} {g d : Frame} (hdeauths : Bridge.Deauths P.crypto g d)
    (htype : g.type? = some .state ∨ g.type? = some .ack)
    (hleaf : d.header.leafMac = g.header.leafMac)
    (hin : g.request P.crypto ∈ s.radio.outstanding) : s.requestMatchesOutstanding d.payload := by
  have htag : (g.request P.crypto).fingerprint = P.crypto.pskTag ⟨protocolVer, 0,
      g.header.packetType, d.header.leafMac, g.header.txCounter, Octets.zero 4⟩ g.payload := by
    refine Crypto.pskTag_congr ?_ g.payload
    rw [Header.tagged_eq, Header.tagged_eq, hleaf]
  unfold requestMatchesOutstanding
  rw [hdeauths.payload htype, Deauth.parse_bytes, Deauth.length_bytes]
  simp only [BEq.rfl, Bool.true_and, List.any_eq_true, Bool.and_eq_true, beq_iff_eq]
  exact ⟨g.request P.crypto, hin, ⟨rfl, rfl⟩, htag⟩

end Remote

namespace Link

variable {P : Remote.Platform η}

/-- The leaf is joined now and after each of the events. -/
def StaysJoined (P : Remote.Platform η) (l : Link η) : List (Event η) → Prop
  | [] => l.leaf.session.joined
  | ev :: es => l.leaf.session.joined ∧ ev.Possible ∧ StaysJoined P (l.step P ev) es

/-- A leaf that stays in its session is joined. -/
theorem StaysJoined.joined {l : Link η} {es : List (Event η)} (h : l.StaysJoined P es) :
    l.leaf.session.joined := by
  cases es with
  | nil => exact h
  | cons ev es => exact h.1

/-- As long as the leaf stays joined, the books are kept. -/
theorem StaysJoined.books {l : Link η} {es : List (Event η)} (h : l.StaysJoined P es) :
    Remote.Books P l.leaf (Transition.runFrom (step P) l es).leaf := by
  induction es generalizing l with
  | nil => exact .refl l.leaf
  | cons ev es ih =>
    obtain ⟨-, hpossible, hes⟩ := h
    refine .trans ?_ (ih hes)
    have hjoined := hes.joined
    cases ev with
    | leaf c =>
      refine (Remote.call_books P l.leaf c).resolve_right fun hleft => ?_
      exact Bool.false_ne_true (hleft.1.symm.trans hjoined)
    | bridge k => exact .refl l.leaf
    | restartLeaf fresh =>
      have hfresh : fresh.session.joined = false := by
        rw [(Remote.Registered.session hpossible).1]
      exact absurd (hfresh.symm.trans hjoined) Bool.false_ne_true

/-- The list never holds more than eight requests. -/
theorem outstanding_length {l : Link η}
    (hl : Transition.Reachable Init (fun _ ev => ev.Possible) (step P) l) :
    l.leaf.radio.outstanding.length ≤ 8 := by
  refine Transition.Reachable.invariant (I := fun l : Link η => l.leaf.radio.outstanding.length ≤ 8)
    (fun l hinit => ?_) (fun l ev hl hok => ?_) hl
  · rw [hinit.leaf.session.2.2.2]
    exact Nat.zero_le _
  · cases ev with
    | bridge k => exact hl
    | restartLeaf fresh =>
      have hfresh : (l.leaf.restart fresh).radio.outstanding = [] := by
        rw [Remote.restart, (Remote.Registered.session hok).2.2.2]
      change (l.leaf.restart fresh).radio.outstanding.length ≤ 8
      rw [hfresh]
      exact Nat.zero_le _
    | leaf c =>
      change (l.leaf.call P c).radio.outstanding.length ≤ 8
      rcases Remote.call_books P l.leaf c with ⟨new, h⟩ | ⟨-, t, hnil, new, h⟩
      · rw [h.outstanding]
        exact Remote.length_foldl_remember hl _
      · rw [h.outstanding, hnil]
        exact Remote.length_foldl_remember (Nat.zero_le _) _

/-- Every `DEAUTH` for a leaf makes it join again, whatever request it names.  One that the bridge
sends in answer to a `STATE` or `ACK` frame of the leaf names an outstanding request, as long as
fewer than eight further requests were recorded and the leaf has stayed in its session; `n` is the
number of the frame's counter. -/
theorem deauth_rejoins (P : Remote.Platform η) :
    (∀ (s : Remote η) e senderMac data rssi d, s.TakesDeauth P data d →
      s.Rejoins P e (s.call P (.frame e senderMac data rssi))) ∧
    ∀ l, Transition.Reachable Init (fun _ ev => ev.Possible) (step P) l →
      ∀ c g, l.leaf.Requests P c g → (l.leaf.call P c).session.joined →
        ∃ n, l.leaf.radio.drawn ≤ n ∧ n < (l.leaf.call P c).radio.drawn ∧
          g.header.txCounter = l.leaf.radio.origin + UInt32.ofNat n ∧
          ∀ es, (l.step P (.leaf c)).StaysJoined P es →
            ∀ s, s = (Transition.runFrom (step P) (l.step P (.leaf c)) es).leaf → ¬ s.EightSince n →
              ∀ d data d', Bridge.Deauths P.crypto g d → d'.header.leafMac = d.header.leafMac →
                d'.payload = d.payload → s.TakesDeauth P data d' →
                  s.requestMatchesOutstanding d'.payload := by
  refine ⟨fun s e senderMac data rssi d h => h.rejoins e senderMac rssi, ?_⟩
  intro l hl c g hg hjoined
  obtain ⟨new, hnew⟩ := (Remote.call_books P l.leaf c).resolve_right fun hleft =>
    Bool.false_ne_true (hleft.1.symm.trans hjoined)
  obtain ⟨effs, mac, data, sent, heffs, hin, hparse⟩ := hg.sent
  obtain ⟨effs', heffs', hbooked⟩ := hnew.effects
  obtain rfl : effs = effs' := List.append_cancel_right (heffs.symm.trans heffs')
  obtain ⟨n, hn⟩ := hbooked mac data sent g hin hparse hg.isRequest
  obtain ⟨hfrom, hto, htx⟩ := hnew.draws _ hn
  refine ⟨n, hfrom, hto, htx, ?_⟩
  rintro es hes s rfl height d data' d' hdeauths hmac hpayload htakes
  obtain ⟨new', hnew'⟩ := hes.books
  have hall := hnew.trans hnew'
  have hmem := hall.mem_outstanding (outstanding_length hl) (List.mem_append_left _ hn) height
  have hleaf : d.header.leafMac = g.header.leafMac := by
    rw [← hmac, htakes.leafMac, hall.leafMac, hg.leafMac]
  rw [hpayload]
  exact Remote.matches_of_mem hdeauths hg.type hleaf hmem

/-! ## A bridge that has forgotten the leaf -/

/-- A leaf joins, which ends with a heartbeat, and its switch is turned on. -/
def switchedEvents : List (Event Unit) :=
  joinEvents (sampleNonce 1) 0 ++
    [toLeaf 80 (sampleNonce 1) (Remote.joinAckTo sampleLeafMac joinStatusComplete (sampleNonce 7) 1),
      .leaf (.stateChange 0 [1])]

def switchedLink : Link Unit := Transition.runFrom (step .sample) sample switchedEvents

theorem switchedLink_reachable :
    Transition.Reachable Init (fun _ ev => ev.Possible) (step .sample) switchedLink := by
  have hstart : Transition.Reachable Init (fun _ (ev : Event Unit) => ev.Possible) (step .sample)
      sample := .start sample_init
  exact hstart.runFrom ⟨trivial, trivial, trivial, trivial, trivial, trivial, trivial, trivial⟩

/-- Its state goes out. -/
def stateCall : Remote.Call := .loop (.quiet 200 (sampleNonce 1))

def stateLink : Link Unit := switchedLink.step .sample (.leaf stateCall)

/-- What a bridge that does not know the leaf answers to `data`. -/
def forgottenAnswer (data : Bytes) : Bytes :=
  bridgeSent { sample with bridge := Bridge.sample.call .sample (Bridge.receives 300 data) } |>.headD []

/-- The heartbeat and the state of the leaf, and their answers. -/
def heartbeatData : Bytes := switchedLink.leafSent.headD []
def stateData : Bytes := stateLink.leafSent.headD []
def heartbeatDeauth : Bytes := forgottenAnswer heartbeatData
def stateDeauth : Bytes := forgottenAnswer stateData

/-- The arrival of a `DEAUTH`. -/
def deauthCall (data : Bytes) : Remote.Call :=
  .frame (.quiet 320 (sampleNonce 8)) sampleBridgeMac data (-50)

/-- `data` is a `DEAUTH` that the leaf takes. -/
def takesDeauth (s : Remote Unit) (data : Bytes) : Bool :=
  (parseFrame data).any fun d => d.type? == some .deauth && validatePsk .sample d &&
    decide ((hopsCount d.header.hopCount).toNat < s.config.maxHops) &&
    d.parentMac.all (fun m => m == Octets.zero 6 || m == s.config.leafMac) &&
    d.header.leafMac == s.config.leafMac && d.payload.length == Deauth.size

theorem takesDeauth_spec {s : Remote Unit} {data : Bytes} (h : takesDeauth s data) :
    ∃ d, s.TakesDeauth .sample data d := by
  obtain ⟨d, hd, hok⟩ := (Option.any_eq_true _ _).mp h
  simp only [Bool.and_eq_true, beq_iff_eq, decide_eq_true_eq] at hok
  obtain ⟨⟨⟨⟨⟨htype, hpsk⟩, hhops⟩, hparent⟩, hleaf⟩, hsize⟩ := hok
  exact ⟨d, hd, htype, ⟨hpsk, hhops, hparent⟩, hleaf, hsize⟩

/-- The frame that `data` brings is a `STATE` frame of the leaf. -/
def isState (s : Remote Unit) (data : Bytes) : Bool :=
  (parseFrame data).any fun g => g.header.leafMac == s.config.leafMac && g.type? == some .state &&
    validatePsk .sample g

theorem stateData_requests : ∃ g, parseFrame stateData = some g ∧ validatePsk .sample g ∧
    switchedLink.leaf.Requests .sample stateCall g := by
  have hstate : isState switchedLink.leaf stateData := by decide +kernel
  obtain ⟨g, hg, hok⟩ := (Option.any_eq_true _ _).mp hstate
  simp only [Bool.and_eq_true, beq_iff_eq] at hok
  obtain ⟨⟨hleaf, htype⟩, hpsk⟩ := hok
  refine ⟨g, hg, hpsk, hleaf, .inl htype, stateLink.leaf.radio.effects.take 3, sampleBridgeMac,
    stateData, true, ?_, ?_, hg⟩
  · decide +kernel
  · decide +kernel

/-- The answer of the forgetful bridge. -/
theorem forgottenAnswer_deauths {data : Bytes} {g d : Frame} (hg : parseFrame data = some g)
    (hpsk : validatePsk .sample g) (hd : parseFrame (forgottenAnswer data) = some d)
    (htype : d.type? = some .deauth)
    (hsent : .send sampleLeafMac (forgottenAnswer data) true ∈
      (Bridge.sample.call .sample (Bridge.receives 300 data)).hub.effects) :
    Bridge.Deauths .sample g d := by
  refine ⟨htype, Bridge.sample, _, _, data, _, g, ?_, rfl, rfl, rfl, rfl, _, sampleLeafMac, _, true,
    (List.append_nil _).symm, hsent, hd⟩
  rw [Bridge.parsePacket, hg, Option.filter_some, if_pos hpsk]

/-- The answer to the state is recognised, and the leaf joins again. -/
theorem deauth_rejoins_stateLink : ∃ d, parseFrame stateDeauth = some d ∧
    stateLink.leaf.requestMatchesOutstanding d.payload ∧
    stateLink.leaf.Rejoins .sample (.quiet 320 (sampleNonce 8))
      (stateLink.leaf.call .sample (deauthCall stateDeauth)) := by
  have htakes : takesDeauth stateLink.leaf stateDeauth := by decide +kernel
  obtain ⟨d, hd⟩ := takesDeauth_spec htakes
  obtain ⟨g, hg, hpsk, hrequests⟩ := stateData_requests
  have hdeauths : Bridge.Deauths .sample g d :=
    forgottenAnswer_deauths hg hpsk hd.parsed hd.type (by decide +kernel)
  have hjoined : stateLink.leaf.session.joined := by decide +kernel
  have hone : stateLink.leaf.radio.outstanding.length = 1 := by decide +kernel
  have hmain := (deauth_rejoins .sample).2 switchedLink switchedLink_reachable stateCall g hrequests
  have hlink : switchedLink.step .sample (.leaf stateCall) = stateLink := by rw [stateLink]
  have hleaf : switchedLink.leaf.call .sample stateCall = stateLink.leaf := by rw [stateLink, step]
  rw [hlink, hleaf] at hmain
  generalize stateLink = l at hmain hd hjoined hone ⊢
  obtain ⟨n, -, -, -, hmatches⟩ := hmain hjoined
  exact ⟨d, hd.parsed, hmatches [] hjoined l.leaf rfl
    (Remote.not_eightSince (by rw [hone]; decide)) d stateDeauth d hdeauths rfl rfl hd,
    (deauth_rejoins .sample).1 _ _ _ _ _ d hd⟩

/-- The answer to the heartbeat names no outstanding request, and the leaf gives up its session all
the same and draws a new nonce.  The answer to the state is not recognised when it comes a second
time, without any further request. -/
theorem deauth_unmatched :
    Transition.Reachable Init (fun _ ev => ev.Possible) (step .sample) switchedLink ∧
    takesDeauth switchedLink.leaf heartbeatDeauth ∧
    (parseFrame heartbeatDeauth).any
      (fun d => !switchedLink.leaf.requestMatchesOutstanding d.payload) ∧
    switchedLink.leaf.session.joined ∧ switchedLink.leaf.session.normal ∧
    switchedLink.leaf.session.remoteNonce = sampleNonce 1 ∧
    (switchedLink.leaf.call .sample (deauthCall heartbeatDeauth)).session.joined = false ∧
    (switchedLink.leaf.call .sample (deauthCall heartbeatDeauth)).session.normal = false ∧
    (switchedLink.leaf.call .sample (deauthCall heartbeatDeauth)).session.remoteNonce =
      sampleNonce 8 ∧
    (parseFrame stateDeauth).any (fun d => stateLink.leaf.requestMatchesOutstanding d.payload &&
      !(stateLink.leaf.call .sample (deauthCall stateDeauth)).requestMatchesOutstanding d.payload) :=
  ⟨switchedLink_reachable, by decide +kernel, by decide +kernel, by decide +kernel,
    by decide +kernel, by decide +kernel, by decide +kernel, by decide +kernel, by decide +kernel,
    by decide +kernel⟩

end Link

end EspTree
