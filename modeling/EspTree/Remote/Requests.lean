import EspTree.Remote.Moves
import EspTree.Remote.Senders

/-!
# The leaf: outstanding requests

A `DEAUTH` names the frame that it answers by packet type, counter and fingerprint, and a leaf
remembers these three of the last eight `STATE` and `ACK` frames that it built.

`Booked` says what a sequence of steps does to that list as long as the session is not cleared:
new entries push out the oldest ones, and every `STATE` or `ACK` frame of the leaf that goes to the
radio has its entry among them.  Each entry stands with the number of its counter in the order in
which counters were drawn, so that "later" has a meaning although counters wrap.  `call_books` goes
through the code: a call keeps the books, or it ends the session.
-/

namespace EspTree

open Wire FileReceiver

/-- What `update_outstanding_request_` keeps of a frame. -/
def Frame.request (c : Crypto) (f : Frame) : Remote.OutstandingRequest :=
  ⟨f.header.packetType, f.header.txCounter, c.pskTag f.header f.payload⟩

/-- A `STATE` or `ACK` frame of the leaf `own`. -/
structure Frame.IsRequest (own : Mac) (f : Frame) : Prop where
  leafMac : f.header.leafMac = own
  type : f.header.packetType = PacketType.state.code ∨ f.header.packetType = PacketType.ack.code

namespace Remote

variable {η : Type}

def requestMatchesOutstanding (s : Remote η) (payload : Bytes) : Bool :=
  let deauth := Deauth.parse payload
  payload.length == Deauth.size && s.radio.outstanding.any (fun req =>
    req.packetType == deauth.responseToPacketType && req.txCounter == deauth.responseToTxCounter &&
      req.fingerprint == deauth.requestFingerprint)

/-- The list after one more request. -/
def remember (l : List OutstandingRequest) (req : OutstandingRequest) : List OutstandingRequest :=
  (if l.length < 8 then l else l.drop 1) ++ [req]

/-- The counter before the first draw. -/
def Radio.origin (r : Radio) : UInt32 := r.txCounter - UInt32.ofNat r.drawn

/-- The part of the radio that the books are about. -/
def Radio.ledger (r : Radio) : UInt32 × Nat × List OutstandingRequest × List Effect :=
  (r.txCounter, r.drawn, r.outstanding, r.effects)

/-- The requests `new` were recorded on the way from `s` to `t`, each with the number of its
counter. -/
structure Booked (P : Platform η) (s : Remote η) (new : List (Nat × OutstandingRequest))
    (t : Remote η) : Prop where
  leafMac : t.config.leafMac = s.config.leafMac
  drawn : s.radio.drawn ≤ t.radio.drawn
  origin : t.radio.origin = s.radio.origin
  outstanding : t.radio.outstanding = (new.map Prod.snd).foldl remember s.radio.outstanding
  draws : ∀ p ∈ new, s.radio.drawn ≤ p.1 ∧ p.1 < t.radio.drawn ∧
    p.2.txCounter = s.radio.origin + UInt32.ofNat p.1
  sorted : (new.map Prod.fst).Pairwise (· < ·)
  effects : ∃ effs, t.radio.effects = effs ++ s.radio.effects ∧ ∀ mac data sent g,
    .send mac data sent ∈ effs → parseFrame data = some g → g.IsRequest s.config.leafMac →
      ∃ n, (n, g.request P.crypto) ∈ new

/-- Steps that keep the books. -/
def Books (P : Platform η) (s t : Remote η) : Prop := ∃ new, Booked P s new t

/-! ## The rules -/

section

variable {P : Platform η} {e : Env} {s t u : Remote η}

/-- The entries of two steps are those of both together. -/
theorem Booked.trans {new new' : List (Nat × OutstandingRequest)} (h : Booked P s new t)
    (h' : Booked P t new' u) : Booked P s (new ++ new') u where
  leafMac := h'.leafMac.trans h.leafMac
  drawn := h.drawn.trans h'.drawn
  origin := h'.origin.trans h.origin
  outstanding := by rw [h'.outstanding, h.outstanding, List.map_append, List.foldl_append]
  draws := by
    intro p hp
    rcases List.mem_append.mp hp with hp | hp
    · obtain ⟨hfrom, hto, htx⟩ := h.draws p hp
      exact ⟨hfrom, hto.trans_le h'.drawn, htx⟩
    · obtain ⟨hfrom, hto, htx⟩ := h'.draws p hp
      exact ⟨h.drawn.trans hfrom, hto, htx.trans (by rw [h.origin])⟩
  sorted := by
    rw [List.map_append, List.pairwise_append]
    refine ⟨h.sorted, h'.sorted, ?_⟩
    intro a ha b hb
    obtain ⟨p, hp, rfl⟩ := List.mem_map.mp ha
    obtain ⟨q, hq, rfl⟩ := List.mem_map.mp hb
    exact (h.draws p hp).2.1.trans_le (h'.draws q hq).1
  effects := by
    obtain ⟨effs, heffs, hsent⟩ := h.effects
    obtain ⟨effs', heffs', hsent'⟩ := h'.effects
    refine ⟨effs' ++ effs, by rw [heffs', heffs, List.append_assoc], ?_⟩
    intro mac data sent g hin hparse hreq
    rcases List.mem_append.mp hin with hin | hin
    · obtain ⟨n, hn⟩ := hsent' mac data sent g hin hparse (h.leafMac ▸ hreq)
      exact ⟨n, List.mem_append_right _ hn⟩
    · obtain ⟨n, hn⟩ := hsent mac data sent g hin hparse hreq
      exact ⟨n, List.mem_append_left _ hn⟩

/-- Two steps that keep the books keep them together. -/
theorem Books.trans (h : Books P s t) (h' : Books P t u) : Books P s u := by
  obtain ⟨new, h⟩ := h
  obtain ⟨new', h'⟩ := h'
  exact ⟨new ++ new', h.trans h'⟩

/-- A step that books nothing. -/
theorem Booked.nil (hmac : t.config.leafMac = s.config.leafMac)
    (hdrawn : s.radio.drawn ≤ t.radio.drawn) (horigin : t.radio.origin = s.radio.origin)
    (hout : t.radio.outstanding = s.radio.outstanding)
    (heff : ∃ effs, t.radio.effects = effs ++ s.radio.effects ∧ ∀ mac data sent g,
      .send mac data sent ∈ effs → parseFrame data = some g → ¬ g.IsRequest s.config.leafMac) :
    Booked P s [] t where
  leafMac := hmac
  drawn := hdrawn
  origin := horigin
  outstanding := hout
  draws := by simp
  sorted := .nil
  effects := by
    obtain ⟨effs, heffs, hsent⟩ := heff
    exact ⟨effs, heffs, fun mac data sent g hin hparse hreq =>
      absurd hreq (hsent mac data sent g hin hparse)⟩

/-- What leaves the ledger alone. -/
theorem Books.quiet (hmac : t.config.leafMac = s.config.leafMac)
    (h : t.radio.ledger = s.radio.ledger) : Books P s t := by
  simp only [Radio.ledger, Prod.mk.injEq] at h
  obtain ⟨htx, hdrawn, hout, heff⟩ := h
  refine ⟨[], .nil hmac hdrawn.ge ?_ hout ⟨[], heff, by simp⟩⟩
  rw [Radio.origin, Radio.origin, htx, hdrawn]

theorem Books.refl (s : Remote η) : Books P s s := .quiet rfl rfl

theorem Books.quiet_left (h : Books P t u) (hmac : t.config.leafMac = s.config.leafMac)
    (hledger : t.radio.ledger = s.radio.ledger) : Books P s u :=
  .trans (.quiet hmac hledger) h

theorem Books.quiet_right (h : Books P s t) (hmac : u.config.leafMac = t.config.leafMac)
    (hledger : u.radio.ledger = t.radio.ledger) : Books P s u :=
  h.trans (.quiet hmac hledger)

/-- To draw a counter is no request. -/
theorem Books.bump (s : Remote η) : Books P s s.bumpTxCounter := by
  refine ⟨[], .nil rfl (Nat.le_succ _) ?_ rfl ⟨[], rfl, by simp⟩⟩
  have hsub (a b : UInt32) : a + 1 - (b + 1) = a - b := by grind
  simp only [Radio.origin, bumpTxCounter, UInt32.ofNat_add]
  exact hsub _ _

/-- A note about something else than a request. -/
theorem Books.note (s : Remote η) (eff : Effect)
    (h : ∀ mac data sent g, eff = .send mac data sent → parseFrame data = some g →
      ¬ g.IsRequest s.config.leafMac) : Books P s (s.note eff) := by
  refine ⟨[], .nil rfl le_rfl rfl rfl ⟨[eff], rfl, ?_⟩⟩
  intro mac data sent g hin hparse
  exact h mac data sent g (List.mem_singleton.mp hin).symm hparse

/-- Reachable through such steps. -/
theorem Books.of_steps (h : Relation.ReflTransGen (Books P) s t) : Books P s t := by
  induction h with
  | refl => exact .refl s
  | tail _ h ih => exact ih.trans h

end

/-! ## Sending -/

/-- A frame that is read from the bytes of another has its header. -/
theorem header_of_bytes {f g : Frame} (h : parseFrame f.bytes = some g) : g.header = f.header := by
  obtain ⟨-, hbytes⟩ := parseFrame_eq_some h
  have hparse := congrArg Header.parse hbytes
  rwa [Frame.bytes, Frame.bytes, Header.parse_bytes_append, Header.parse_bytes_append] at hparse

theorem hasParentCheck_upHop (s : Remote η) : hasParentCheck s.upHop = false := by
  have hfin : ∀ i : Fin 256, hasParentCheck (hopsMake 0 (UInt8.ofFin i)) = false := by
    decide +kernel
  exact hfin s.route.hopsToBridge.toFin

section

variable {P : Platform η} {e : Env} {s : Remote η}

/-- A frame of another leaf or of another type. -/
theorem Books.transmit (s : Remote η) (mac : Mac) (f : Frame) (h : ¬ f.IsRequest s.config.leafMac) :
    Books P s (s.transmit e mac f).1 := by
  refine (Books.note s (.send mac f.bytes (e.sendOk s.radio.effects.length)) ?_).trans
    (.quiet rfl rfl)
  rintro _ _ _ g ⟨rfl, rfl, rfl⟩ hparse hreq
  have hheader := header_of_bytes hparse
  exact h ⟨hheader ▸ hreq.leafMac, hheader ▸ hreq.type⟩

/-- Only `STATE` and `ACK` frames are requests. -/
theorem isRequest_type (type : PacketType) {own : Mac} {f : Frame} (h : f.IsRequest own)
    (hcode : f.header.packetType = type.code) : type = .state ∨ type = .ack := by
  have htype := h.type
  rw [hcode] at htype
  cases type <;> revert htype <;> decide

theorem sendUp_books (s : Remote η) (type : PacketType) (plaintext : Bytes)
    (hstate : type ≠ .state) (hack : type ≠ .ack) : Books P s (s.sendUp P e type plaintext).1 := by
  unfold sendUp sendSealed
  split
  · exact .bump s
  · split
    · exact .bump s
    · refine (Books.bump s).trans (.trans (.note _ _ ?_) (.transmit _ _ _ ?_))
      · intro mac data sent g h
        cases h
      · intro hreq
        exact (isRequest_type type hreq rfl).elim hstate hack

/-- The request that is recorded for the payload `ciphertext`. -/
def requestFor (P : Platform η) (s : Remote η) (type : PacketType) (ciphertext : Bytes) :
    OutstandingRequest :=
  ⟨type.code, s.radio.txCounter, P.crypto.pskTag
    ⟨protocolVer, s.upHop, type.code, s.config.leafMac, s.radio.txCounter, Octets.zero 4⟩ ciphertext⟩

/-- A request is written down under its counter when the frame is built. -/
theorem Booked.request (s : Remote η) (type : PacketType) (ciphertext : Bytes) :
    Booked P s [(s.radio.drawn, s.requestFor P type ciphertext)]
      (s.bumpTxCounter.updateOutstandingRequest P type s.radio.txCounter ciphertext) where
  leafMac := rfl
  drawn := Nat.le_succ _
  origin := by
    obtain ⟨_, hbump⟩ := Books.bump (P := P) s
    exact hbump.origin
  outstanding := rfl
  draws := by
    have hadd (a b : UInt32) : a = a - b + b := by grind
    intro p hp
    obtain rfl := List.mem_singleton.mp hp
    exact ⟨le_rfl, Nat.lt_succ_self _, hadd _ _⟩
  sorted := List.pairwise_singleton _ _
  effects := ⟨[], rfl, by simp⟩

/-- A note about a frame whose request has been booked. -/
theorem Booked.note {new : List (Nat × OutstandingRequest)} {t : Remote η} (h : Booked P s new t)
    (eff : Effect) (hreq : ∀ mac data sent g, eff = .send mac data sent → parseFrame data = some g →
      g.IsRequest s.config.leafMac → ∃ n, (n, g.request P.crypto) ∈ new) :
    Booked P s new (t.note eff) where
  leafMac := h.leafMac
  drawn := h.drawn
  origin := h.origin
  outstanding := h.outstanding
  draws := h.draws
  sorted := h.sorted
  effects := by
    obtain ⟨effs, heffs, hsent⟩ := h.effects
    refine ⟨eff :: effs, congrArg (eff :: ·) heffs, ?_⟩
    intro mac data sent g hin hparse hown
    rcases List.mem_cons.mp hin with rfl | hin
    · exact hreq mac data sent g rfl hparse hown
    · exact hsent mac data sent g hin hparse hown

/-- The frame that goes out is the one that was booked. -/
theorem request_of_sealed {type : PacketType} {ciphertext : Bytes} {key : SessionKey} {g : Frame}
    (htype : type.isEncrypted) (hparse : parseFrame (sealed P.crypto key s.config.leafMac type s.upHop
      s.radio.txCounter none ciphertext).bytes = some g) :
    g.request P.crypto = s.requestFor P type ciphertext := by
  obtain ⟨hwf, hbytes⟩ := parseFrame_eq_some hparse
  set f := sealed P.crypto key s.config.leafMac type s.upHop s.radio.txCounter none ciphertext
  have hup : (none : Option Mac).isSome = hasParentCheck s.upHop := by
    rw [hasParentCheck_upHop]
    rfl
  have hlen : f.bytes.length = headerSize s.upHop + ciphertext.length + sessionTagLen :=
    length_sealed hup
  -- what the parser took is not too long, so the frame is well formed and read back as it was
  have hself : parseFrame f.bytes = some f :=
    parseFrame_bytes (sealed_wellFormed htype hup (by rw [← hlen, ← hbytes]; exact hwf.fits))
  obtain rfl := Option.some.inj (hparse.symm.trans hself)
  refine congrArg (OutstandingRequest.mk type.code s.radio.txCounter) (Crypto.pskTag_congr ?_ _)
  rw [Header.tagged_eq, Header.tagged_eq]
  rfl

/-- The one step that books a request: with the frame, or without it when it is too long. -/
theorem sendUpTracked_books (s : Remote η) {type : PacketType} (plaintext : Bytes)
    (htype : type.isEncrypted) : Books P s (s.sendUpTracked P e type plaintext).1 := by
  unfold sendUpTracked
  dsimp only
  split
  · exact .bump s
  next ciphertext hcrypt =>
  have hbooked := Booked.request (P := P) s type ciphertext
  unfold sendSealed
  split
  · exact ⟨_, hbooked⟩
  split
  · exact ⟨_, hbooked⟩
  next ciphertext' hcrypt' =>
  obtain rfl := Option.some.inj (hcrypt.symm.trans hcrypt')
  have hencrypt := hbooked.note (.encrypt type s.session.sessionKey s.radio.txCounter plaintext)
    (by rintro mac data sent g ⟨⟩)
  refine Books.trans ⟨_, hencrypt.note (.send _ _ _) ?_⟩ (.quiet rfl rfl)
  rintro _ _ _ g ⟨rfl, rfl, rfl⟩ hparse -
  exact ⟨s.radio.drawn, by rw [request_of_sealed htype hparse]; exact List.mem_singleton_self _⟩

/-- So the books are kept across all that is sent upstream. -/
theorem Books.sendClosed : SendClosed P e (Books P) where
  refl := .refl
  trans := .trans
  ack s plaintext := sendUpTracked_books s plaintext rfl
  state s plaintext := sendUpTracked_books s plaintext rfl
  schemaPush s plaintext := sendUp_books s .schemaPush plaintext (by decide) (by decide)
  failed _ _ := .quiet rfl rfl
  remembered s index value _ base reset := by
    refine (Books.note (s.rememberState e index value base reset) _ ?_).quiet_left rfl rfl
    rintro _ _ _ _ ⟨⟩

theorem fileContext_books (s : Remote η) (rest : Bytes) :
    Relation.ReflTransGen (Books P) s
      ((fileContext P e).sendAckFn s (PacketType.fileTransfer.code :: rest)).1 :=
  .single (Books.sendClosed.sendAck s _ 0)

theorem sendHeartbeat_books (s : Remote η) : Books P s (s.sendHeartbeat P e).1 := by
  unfold sendHeartbeat
  split
  · exact .refl s
  · exact (sendUp_books s .heartbeat _ (by decide) (by decide)).trans (.quiet rfl rfl)

theorem sendIdentityDescriptor_books (s : Remote η) :
    Books P s (s.sendIdentityDescriptor P e).1 := by
  unfold sendIdentityDescriptor
  split
  · exact .refl s
  · refine .trans ?_ (sendUp_books _ .schemaPush _ (by decide) (by decide))
    exact .quiet rfl rfl

theorem sendPlain_books (s : Remote η) (mac : Mac) (type : PacketType) (hop : UInt8) (tx : UInt32)
    (payload : Bytes) (hstate : type ≠ .state) (hack : type ≠ .ack) :
    Books P s (s.sendPlain P e mac type hop tx payload).1 :=
  .transmit s mac _ fun hreq => (isRequest_type type hreq rfl).elim hstate hack

theorem sendJoin_books (s : Remote η) : Books P s (s.sendJoin P e).1 := by
  unfold sendJoin
  split
  · exact .refl s
  · set t := { s with discovery := { s.discovery with joinDelayUntilMs := 0 } }
    have hsend : Books P s (t.bumpTxCounter.sendPlain P e t.route.parentMac .join t.upHop
        t.radio.txCounter (t.joinRequest P).bytes).1 :=
      .trans (.bump s) (Books.quiet_left
        (sendPlain_books t.bumpTxCounter _ .join _ _ _ (by decide) (by decide)) rfl rfl)
    exact hsend.quiet_right rfl rfl

theorem sendDiscover_books (s : Remote η) : Books P s (s.sendDiscover P e).1 := by
  unfold sendDiscover
  dsimp only
  split
  · set t := { s with discovery := (s.discovery.nextProbe e s.route.bestParent.valid).1 }
    have hsend : Books P t (t.sendOnChannel P e).1 :=
      (sendPlain_books t broadcastMac .discover _ _ _ (by decide) (by decide)).quiet_right rfl rfl
    exact hsend.quiet_left rfl rfl
  · exact .quiet rfl rfl

theorem flushPendingDiscoverAnnounce_books (s : Remote η) :
    Books P s (s.flushPendingDiscoverAnnounce P e) := by
  unfold flushPendingDiscoverAnnounce
  split
  · exact .refl s
  split
  · exact .refl s
  · refine .trans (.note s (.send _ _ _) ?_) (.quiet rfl rfl)
    rintro _ _ _ g ⟨rfl, rfl, rfl⟩ hparse hreq
    refine absurd (isRequest_type .discoverAnnounce hreq ?_) (by decide)
    rw [header_of_bytes hparse]
    rfl

theorem forwardFrame_books (s : Remote η) (mac : Mac) (f : Frame) (delta : UInt8)
    (hother : f.header.leafMac ≠ s.config.leafMac) :
    Books P s (s.forwardFrame P e mac f delta).1 := by
  unfold forwardFrame
  refine .trans (.note s (.send _ _ _) ?_) (.quiet rfl rfl)
  rintro _ _ _ g ⟨rfl, rfl, rfl⟩ hparse hreq
  have hleaf := hreq.leafMac
  rw [header_of_bytes hparse] at hleaf
  exact hother hleaf

/-! ## The end of a session

A session ends with `clear_session_state_`, which empties the list; nothing that may follow in the
same call makes the leaf join again. -/

/-- The leaf is out of its session, with a list that was emptied. -/
def Left (P : Platform η) (t : Remote η) : Prop :=
  t.session.joined = false ∧ ∃ t₀, t₀.radio.outstanding = [] ∧ Books P t₀ t

/-- A step keeps the books, or the leaf has left. -/
def KeepsBooks (P : Platform η) (s t : Remote η) : Prop := Books P s t ∨ Left P t

/-- A leaf that has left its session has left it, whatever it books afterwards. -/
theorem Left.trans {t u : Remote η} (h : Left P t) (h' : Books P t u)
    (hjoined : u.session.joined = t.session.joined) : Left P u := by
  obtain ⟨hleft, t₀, hnil, hbooks⟩ := h
  exact ⟨hjoined.trans hleft, t₀, hnil, hbooks.trans h'⟩

theorem Left.quiet {t u : Remote η} (h : Left P t) (hsession : u.session.joined = t.session.joined)
    (hmac : u.config.leafMac = t.config.leafMac) (hledger : u.radio.ledger = t.radio.ledger) :
    Left P u := h.trans (.quiet hmac hledger) hsession

/-- Giving the session up forgets the requests. -/
theorem clearSessionState_left (s : Remote η) (preserveRoute : Bool) :
    Left P (s.clearSessionState P e preserveRoute) :=
  ⟨rfl, _, rfl, .refl _⟩

theorem startDiscoveryCycle_left (s : Remote η) (nonce : Nonce) (expired : Bool) :
    Left P (s.startDiscoveryCycle P e nonce expired) :=
  (clearSessionState_left s false).quiet rfl rfl rfl

theorem Left.setDiscoverDue {t : Remote η} (h : Left P t) (due : UInt32) :
    Left P (t.setDiscoverDue due) := h.quiet rfl rfl rfl

theorem startConfigFullRediscovery_left (s : Remote η) (nonce : Nonce) :
    Left P (s.startConfigFullRediscovery P e nonce) :=
  (clearSessionState_left s true).quiet rfl rfl rfl

theorem startRouteRecoveryCycle_books (s : Remote η) : Books P s (s.startRouteRecoveryCycle e) :=
  .quiet rfl rfl

theorem rejoinDueToTransmitStall_keeps (s : Remote η) (noOutboundProgress : Bool) :
    KeepsBooks P s (s.rejoinDueToTransmitStall P e noOutboundProgress) := by
  cases noOutboundProgress with
  | false => exact .inl (startRouteRecoveryCycle_books s)
  | true =>
    refine .inr ((clearSessionState_left s true).trans (.note _ .reboot ?_) rfl)
    rintro _ _ _ _ ⟨⟩

theorem abortFiles_books (s : Remote η) (reason : UInt8) (notifySender : Bool) :
    Books P s (s.abortFiles P e reason notifySender) :=
  .quiet_right (.of_steps (Receiver.abort_owner (x := fileContext P e)
    (fun p rest => fileContext_books p rest) s.files s reason notifySender)) rfl rfl

/-! ## Received frames -/

theorem handleDiscover_books (s : Remote η) (senderMac : Mac) (f : Frame) :
    Books P s (s.handleDiscover e senderMac f).1 := by
  unfold handleDiscover sendDiscoverAnnounceWithJitter
  dsimp only
  split_ifs <;> exact .quiet rfl rfl

theorem handleDiscoverAnnounce_books (s : Remote η) (senderMac : Mac) (f : Frame) (rssi : Int) :
    Books P s (s.handleDiscoverAnnounce e senderMac f rssi).1 := by
  unfold handleDiscoverAnnounce selectParentCandidate
  dsimp only
  split_ifs <;> exact .quiet rfl rfl

theorem rejectJoin_keeps (s : Remote η) (ack : JoinAck) : KeepsBooks P s (s.rejectJoin P e ack) := by
  unfold rejectJoin
  dsimp only
  split
  · split
    · exact .inr ((startDiscoveryCycle_left _ _ _).setDiscoverDue _)
    · exact .inl (.quiet rfl rfl)
  · exact .inr (startDiscoveryCycle_left _ _ _)

theorem handleJoinAck_keeps (s : Remote η) (f : Frame) :
    KeepsBooks P s (s.handleJoinAck P e f).1 := by
  unfold handleJoinAck
  dsimp only
  split
  · exact .inl (.refl s)
  split
  · exact .inl (.refl s)
  split
  · exact rejectJoin_keeps s _
  left
  split
  · split <;> exact .quiet rfl rfl
  split
  · split <;> exact .quiet rfl rfl
  split
  · exact (sendHeartbeat_books _).quiet_left rfl rfl
  · exact .quiet rfl rfl

/-- Whatever the `DEAUTH` names, the leaf leaves. -/
theorem handleDeauth_left (s : Remote η) (f : Frame) :
    (s.handleDeauth P e f).1 = s ∨ Left P (s.handleDeauth P e f).1 := by
  unfold handleDeauth
  split
  · exact .inl rfl
  split
  · exact .inl rfl
  right
  dsimp only
  set t : Remote η := { s.clearSessionState P e true with
    session := { (s.clearSessionState P e true).session with remoteNonce := e.nonce 0 }
    discovery := { (s.clearSessionState P e true).discovery with
      discovering := true
      sweepComplete := true
      fastRejoin := false
      resumeNormalAfterSuccess := false
      currentChannelOnly := true } }
  have ht : Left P t := (clearSessionState_left s true).quiet rfl rfl rfl
  split
  · have hjoin : Books P t (t.sendJoin P e).1 := sendJoin_books t
    have hsession : (t.sendJoin P e).1.session = t.session := by
      unfold sendJoin
      split <;> rfl
    generalize t.sendJoin P e = o at hjoin hsession ⊢
    obtain ⟨u, sent⟩ := o
    cases sent with
    | false => exact startDiscoveryCycle_left u _ _
    | true => exact ht.trans hjoin (congrArg Session.joined hsession)
  · exact startDiscoveryCycle_left t _ _

theorem handleAck_books (s : Remote η) (f : Frame) : Books P s (s.handleAck P e f).1 := by
  have hnote (t : Remote η) (base : UInt32) : Books P t (t.note (.stateAcked base)) :=
    .note t _ (by rintro _ _ _ _ ⟨⟩)
  unfold handleAck
  split
  · exact .refl s
  split
  · exact .refl s
  dsimp only
  split
  · exact .refl s
  split
  · split
    · exact ((hnote _ _).quiet_left rfl rfl).quiet_right rfl rfl
    · exact .quiet rfl rfl
  · exact .refl s

theorem storeCommand_books (s : Remote η) (counter : UInt32) (command : EntityPayload)
    (base : UInt32) : Books P s (s.storeCommand P e counter command base).1 := by
  unfold storeCommand
  dsimp only
  split
  · exact .quiet rfl rfl
  next a ha =>
  split
  · refine .trans ?_ (Books.sendClosed.sendCommandAck _ 0 base)
    refine Books.quiet_left (.note _ (.command _ _ _ _ _) ?_) rfl rfl
    rintro _ _ _ _ ⟨⟩
  · exact .quiet rfl rfl

theorem handleCommand_books (s : Remote η) (f : Frame) : Books P s (s.handleCommand P e f).1 := by
  unfold handleCommand
  split
  · exact .refl s
  split
  · exact .refl s
  split
  · exact .refl s
  dsimp only
  split
  · exact Books.sendClosed.sendCommandAck s 2 _
  split
  · exact storeCommand_books s _ _ _
  split
  · exact Books.sendClosed.sendCommandAck s 0 _
  · exact .refl s

theorem ackAndRemember_books (s : Remote η) (counter : UInt32) (command result : UInt8) :
    Books P s (s.ackAndRemember P e counter command result).1 :=
  (Books.sendClosed.sendConfigAck _ command result counter).quiet_left rfl rfl

theorem ackThen_keeps (s : Remote η) (counter : UInt32) (command : UInt8)
    {act : Remote η → Remote η} (hact : ∀ t, KeepsBooks P t (act t)) :
    KeepsBooks P s (s.ackThen P e counter command act).1 := by
  unfold ackThen
  dsimp only
  have hack : Books P s (s.ackAndRemember P e counter command cfgResultOk).1 :=
    ackAndRemember_books ..
  generalize s.ackAndRemember P e counter command cfgResultOk = o at hack ⊢
  obtain ⟨t, sent⟩ := o
  cases sent with
  | false => exact .inl hack
  | true =>
    have hnote : Books P t (t.note (.config t.session.sessionKey counter command)) :=
      .note t _ (by rintro _ _ _ _ ⟨⟩)
    rcases hact (t.note (.config t.session.sessionKey counter command)) with h | h
    · exact .inl (hack.trans (hnote.trans h))
    · exact .inr h

theorem runConfig_keeps (s : Remote η) (counter : UInt32) (command : UInt8) (payload : Bytes) :
    KeepsBooks P s (s.runConfig P e counter command payload).1 := by
  have hinvalid (command result : UInt8) :
      KeepsBooks P s (s.ackAndRemember P e counter command result).1 :=
    .inl (ackAndRemember_books ..)
  unfold runConfig
  dsimp only
  split
  · split
    · exact hinvalid _ _
    · refine ackThen_keeps s counter _ fun t => .inl (.note t .reboot ?_)
      rintro _ _ _ _ ⟨⟩
  · split_ifs
    · exact hinvalid _ _
    · exact hinvalid _ _
    · exact ackThen_keeps s counter _ fun t => .inl (.quiet rfl rfl)
  · split
    · exact hinvalid _ _
    · exact ackThen_keeps s counter _ fun t => .inr (startConfigFullRediscovery_left t _)
  · split_ifs
    · exact hinvalid _ _
    · exact hinvalid _ _
    · exact ackThen_keeps s counter _ fun t => .inl (.quiet rfl rfl)
  · split
    · exact hinvalid _ _
    · exact ackThen_keeps s counter _ fun t => .inl (.quiet rfl rfl)
  · exact hinvalid _ _

theorem KeepsBooks.quiet_left {t u : Remote η} (h : KeepsBooks P t u)
    (hmac : t.config.leafMac = s.config.leafMac) (hledger : t.radio.ledger = s.radio.ledger) :
    KeepsBooks P s u := h.imp_left (·.quiet_left hmac hledger)

theorem handleConfig_keeps (s : Remote η) (f : Frame) : KeepsBooks P s (s.handleConfig P e f).1 := by
  unfold handleConfig
  dsimp only
  split
  · exact .inl (.refl s)
  split
  · exact .inl (.refl s)
  split
  · exact .inl (Books.sendClosed.sendConfigAck ..)
  split
  · exact .inl (.refl s)
  refine KeepsBooks.quiet_left (t := s.seen f.header.txCounter) ?_ rfl rfl
  split
  · exact .inl (ackAndRemember_books ..)
  split
  · exact .inl (ackAndRemember_books ..)
  split
  · exact .inl (ackAndRemember_books ..)
  · exact runConfig_keeps ..

theorem handleSchemaRequest_books (s : Remote η) (f : Frame) :
    Books P s (s.handleSchemaRequest P e f).1 := by
  unfold handleSchemaRequest
  split
  · exact .refl s
  split
  · exact .refl s
  dsimp only
  split_ifs
  · exact .refl s
  · exact (sendIdentityDescriptor_books _).quiet_left rfl rfl
  · exact .quiet rfl rfl
  · exact (Books.sendClosed.sendSchemaPush _ _).quiet_left rfl rfl
  · exact .quiet rfl rfl

theorem handleFileTransfer_books (s : Remote η) (f : Frame) :
    Books P s (s.handleFileTransfer P e f).1 := by
  unfold handleFileTransfer
  split
  · exact .refl s
  split
  · exact .refl s
  split
  · exact .refl s
  next plaintext hopen =>
  have hfiles : Books P (s.noteOtaActivity e) _ := .of_steps (Receiver.handleFileTransfer_owner
    (x := fileContext P e) (fun p rest => fileContext_books p rest)
    (noteFileCounter (s.noteOtaActivity e).files f.header.txCounter plaintext) _ plaintext)
  refine Books.quiet_left (t := s.noteOtaActivity e) ?_ rfl rfl
  exact Books.quiet_right hfiles rfl rfl

theorem handleFileData_books (s : Remote η) (f : Frame) :
    Books P s (s.handleFileData P e f).1 := by
  unfold handleFileData
  split
  · exact .refl s
  split
  · exact .refl s
  split <;> exact .quiet rfl rfl

theorem refreshRoute_books (s : Remote η) (leafMac nextHopMac : Mac) :
    Books P s (s.refreshRoute e leafMac nextHopMac) := by
  unfold refreshRoute
  split <;> exact .quiet rfl rfl

theorem forwardPacket_books (s : Remote η) (f : Frame)
    (hother : f.header.leafMac ≠ s.config.leafMac) : Books P s (s.forwardPacket P e f).1 := by
  unfold forwardPacket
  split
  · split
    · exact .refl s
    · exact forwardFrame_books s _ f 0 hother
  · split
    · exact .refl s
    · refine (refreshRoute_books s _ _).trans (forwardFrame_books _ _ f 1 ?_)
      rwa [refreshRoute_config]

theorem handleUpstream_books (s : Remote η) (senderMac : Mac) (f : Frame)
    (hother : f.header.leafMac ≠ s.config.leafMac) :
    Books P s (s.handleUpstream P e senderMac f).1 := by
  unfold handleUpstream
  split
  · exact .refl s
  · refine (refreshRoute_books s _ _).trans (forwardPacket_books _ f ?_)
    rwa [refreshRoute_config]

theorem handleLocally_keeps (s : Remote η) (senderMac : Mac) (f : Frame) (rssi : Int) :
    KeepsBooks P s (s.handleLocally P e senderMac f rssi).1 := by
  unfold handleLocally
  split
  · exact .inl (handleDiscover_books ..)
  · exact .inl (handleDiscoverAnnounce_books ..)
  · exact handleJoinAck_keeps s f
  · exact .inl (handleAck_books s f)
  · exact .inl (handleCommand_books s f)
  · exact handleConfig_keeps s f
  · exact .inl (handleSchemaRequest_books s f)
  · rcases handleDeauth_left (P := P) (e := e) s f with h | h
    · exact .inl (by rw [h]; exact .refl s)
    · exact .inr h
  · split
    · exact .inl (handleFileTransfer_books s f)
    · exact .inl (.refl s)
  · split
    · exact .inl (handleFileData_books s f)
    · exact .inl (.refl s)
  · exact .inl (.refl s)

/-- A frame keeps the books, or it makes the leaf leave its session. -/
theorem onFrame_keeps (s : Remote η) (senderMac : Mac) (f : Frame) (len : Nat) (rssi : Int) :
    KeepsBooks P s (s.onFrame P e senderMac f len rssi).1 := by
  unfold onFrame
  dsimp only
  split
  · exact .inl (.refl s)
  split
  · exact .inl (.refl s)
  split
  · exact .inl (.refl s)
  have harrived := Arrived.noteRssi s senderMac rssi
  set t := s.noteRssi senderMac rssi
  have hbooks : Books P s t := .quiet (by rw [harrived.config]) (by rw [harrived.radio])
  split
  · exact .inl hbooks
  split
  · have harrived' := harrived.noteHops f
    exact (handleLocally_keeps (t.noteHops f) senderMac f rssi).quiet_left
      (by rw [harrived'.config]) (by rw [harrived'.radio])
  next hlocal =>
  have hother : f.header.leafMac ≠ t.config.leafMac := by
    intro h
    simp [shouldHandleLocally, h] at hlocal
  left
  split
  · exact hbooks
  split
  · exact hbooks.trans (handleUpstream_books t senderMac f hother)
  · exact hbooks.trans (forwardPacket_books t f hother)

/-! ## The main loop -/

theorem loopFiles_books (s : Remote η) : Books P s (s.loopFiles P e) := by
  have hloop : Books P s { (s.files.loop (fileContext P e) s).2 with
      files := (s.files.loop (fileContext P e) s).1 } :=
    .quiet_right (.of_steps (Receiver.loop_owner (x := fileContext P e)
      (fun p rest => fileContext_books p rest) s.files s)) rfl rfl
  unfold loopFiles
  dsimp only
  split
  · split
    · exact hloop.quiet_right rfl rfl
    split
    · exact (hloop.trans (abortFiles_books _ _ _)).quiet_right rfl rfl
    · exact hloop
  · exact hloop.quiet_right rfl rfl

theorem housekeeping_books (s : Remote η) : Books P s (s.housekeeping P e) := by
  have hprune : Books P s ((s.pruneRoutes e).prunePendingCommandFragments e) := .quiet rfl rfl
  unfold housekeeping
  exact hprune.trans (.trans (loopFiles_books _) (flushPendingDiscoverAnnounce_books _))

theorem loopStart_keeps (s : Remote η) : KeepsBooks P s (s.loopStart P e).1 := by
  unfold loopStart
  split
  · exact .inr (startDiscoveryCycle_left _ _ _)
  split
  · split
    · exact .inr (startDiscoveryCycle_left _ _ _)
    · exact .inl (.refl s)
  · exact .inl (.refl s)

theorem loopTopology_books (s : Remote η) (wanted : Bool) :
    Books P s (s.loopTopology e wanted).1 := by
  unfold loopTopology
  dsimp only
  split_ifs <;> exact .quiet rfl rfl

theorem loopResume_books (s : Remote η) : Books P s (s.loopResume P e).1 := by
  unfold loopResume
  split
  · refine .trans ?_ (sendHeartbeat_books _)
    unfold adoptBestParentCandidate
    split <;> exact .quiet rfl rfl
  · exact .refl s

theorem loopJoin_books (s : Remote η) : Books P s (s.loopJoin P e).1 := by
  unfold loopJoin
  split
  · exact (sendJoin_books _).quiet_left rfl rfl
  · exact .refl s

theorem loopSweep_books (s : Remote η) : Books P s (s.loopSweep P e).1 := by
  unfold loopSweep
  split
  · split
    · exact .quiet rfl rfl
    · exact sendDiscover_books s
  · exact .refl s

theorem loopJoinExhausted_keeps (s : Remote η) : KeepsBooks P s (s.loopJoinExhausted P e) := by
  unfold loopJoinExhausted
  split
  · exact .inr ((startDiscoveryCycle_left _ _ _).setDiscoverDue _)
  · exact .inl (.refl s)

theorem loopStalled_keeps (s : Remote η) : KeepsBooks P s (s.loopStalled P e).1 := by
  unfold loopStalled
  split
  · exact .inr ((startDiscoveryCycle_left _ _ _).setDiscoverDue _)
  split
  · exact rejoinDueToTransmitStall_keeps s false
  split
  · exact rejoinDueToTransmitStall_keeps s false
  split
  · exact rejoinDueToTransmitStall_keeps s true
  · exact .inl (.refl s)

theorem retryState_books (s : Remote η) : Books P s (s.retryState P e) := by
  have hsend : Books P s (s.sendState P e s.entities.pendingStateFieldIndex
    s.entities.pendingStateValue false).1 := Books.sendClosed.sendState ..
  unfold retryState
  generalize s.sendState P e s.entities.pendingStateFieldIndex s.entities.pendingStateValue false = o
    at hsend ⊢
  obtain ⟨t, sent⟩ := o
  cases sent <;> exact hsend.quiet_right rfl rfl

theorem loopStateAck_books (s : Remote η) : Books P s (s.loopStateAck P e).1 := by
  unfold loopStateAck
  split
  · split
    · split
      · exact retryState_books s
      · exact .refl s
    · exact .quiet rfl rfl
  · exact .refl s

theorem loopHeartbeat_books (s : Remote η) : Books P s (s.loopHeartbeat P e).1 := by
  unfold loopHeartbeat
  split
  · dsimp only
    split
    · exact (sendHeartbeat_books _).quiet_left rfl rfl
    · exact .quiet rfl rfl
  · exact .refl s

theorem pushDirtyState_books (s : Remote η) : Books P s (s.pushDirtyState P e) := by
  unfold pushDirtyState
  split
  · exact .refl s
  split
  · exact .refl s
  next record hrecord =>
  have hsend : Books P s (s.sendState P e record.schema.entityIndex record.currentValue true).1 :=
    Books.sendClosed.sendState ..
  generalize s.sendState P e record.schema.entityIndex record.currentValue true = o at hsend ⊢
  obtain ⟨t, sent⟩ := o
  cases sent with
  | false => exact hsend
  | true => exact hsend.quiet_right rfl rfl

/-- The rest of the loop runs only if the part before it has not ended the call. -/
theorem andThen_keeps {r : Remote η × Bool} {rest : Remote η → Remote η}
    (h : KeepsBooks P s r.1) (hgo : r.2 = false → Books P s r.1)
    (hrest : ∀ t, KeepsBooks P t (rest t)) : KeepsBooks P s (andThen r rest) := by
  unfold andThen
  split
  · exact h
  next hr =>
  exact (hrest r.1).imp_left (hgo (by simpa using hr)).trans

/-- A part that keeps the books in any case. -/
theorem andThen_books {r : Remote η × Bool} {rest : Remote η → Remote η} (h : Books P s r.1)
    (hrest : ∀ t, KeepsBooks P t (rest t)) : KeepsBooks P s (andThen r rest) :=
  andThen_keeps (.inl h) (fun _ => h) hrest

theorem loopJoined_keeps (s : Remote η) : KeepsBooks P s (s.loopJoined P e) := by
  refine andThen_keeps (loopStalled_keeps s) ?_ fun t => ?_
  · intro h
    rw [loopStalled_continues s h]
    exact .refl s
  refine andThen_books (loopStateAck_books t) fun t => ?_
  split
  · exact .inl (.refl t)
  · exact andThen_books (loopHeartbeat_books t) fun t => .inl (pushDirtyState_books t)

/-- So does the loop. -/
theorem loop_keeps (s : Remote η) : KeepsBooks P s (s.loop P e) := by
  have hhouse : Books P s (s.housekeeping P e) := housekeeping_books s
  refine andThen_keeps ?_ ?_ fun t => ?_
  · exact (loopStart_keeps _).imp_left hhouse.trans
  · intro h
    rw [loopStart_continues _ h]
    exact hhouse
  refine andThen_books (loopTopology_books t _) fun t => ?_
  refine andThen_books (loopTopology_books t _) fun t => ?_
  refine andThen_books (loopResume_books t) fun t => ?_
  refine andThen_books (loopJoin_books t) fun t => ?_
  refine andThen_books (loopSweep_books t) fun t => ?_
  dsimp only
  rcases loopJoinExhausted_keeps (P := P) (e := e) t with h | h
  · split
    · exact (loopJoined_keeps _).imp_left h.trans
    · exact .inl h
  · rw [h.1]
    exact .inr h

/-- A call keeps the books, or the leaf leaves. -/
theorem call_books (P : Platform η) (s : Remote η) (c : Call) : KeepsBooks P s (s.call P c) := by
  cases c with
  | frame e senderMac data rssi =>
    change KeepsBooks P s (s.onEspnowFrame P e senderMac data rssi).1
    unfold onEspnowFrame
    split
    · exact .inl (.refl s)
    · exact onFrame_keeps s senderMac _ _ rssi
  | loop e => exact loop_keeps s
  | stateChange index value => exact .inl (.quiet rfl rfl)
  | textChange index value => exact .inl (.quiet rfl rfl)

end

end Remote

end EspTree
