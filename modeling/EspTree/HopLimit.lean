import EspTree.Relay
import EspTree.Reflection
import EspTree.Remote.Requests

/-!
# The limit on hops

A leaf takes an announcement as long as the announced depth is at most `max_hops_`, and a relay answers a
`DISCOVER` as long as its own depth is.  `on_espnow_frame` drops a frame when its hop count has reached
`max_hops_`.  Upstream the count is the depth of the leaf, one more than what was announced, and downstream it
is the number of relays behind the frame.

`HopsAgree` says that the two comparisons fit together: a leaf that was let in is heard by every relay on its
path, and hears the bridge.  `hopsAgree_iff` says for which limits and depths they do.
-/

namespace EspTree

open Wire

namespace Remote

variable {η : Type}

/-! ## Candidates and parents -/

/-- The hop count in a `DISCOVER_ANNOUNCE`. -/
def announcedHops (f : Frame) : UInt8 := (DiscoverAnnounce.parse f.payload).hopsToBridge

/-- The leaf takes an announcement as a candidate for a parent, and has no better one. -/
structure Considers (e : Env) (s : Remote η) (senderMac : Mac) (f : Frame) (rssi : Int) (t : Remote η) :
    Prop where
  taken : s.handleDiscoverAnnounce e senderMac f rssi = (t, true)
  sender : t.route.bestParent.nextHopMac = senderMac
  hops : t.route.bestParent.hopsToBridge = announcedHops f

/-- A leaf that has adopted the best candidate of `t`, as long as it has the resulting hop count. -/
inductive Adopts (t : Remote η) : Remote η → Prop
  | resume (resumeNormal : Bool) : Adopts t (t.adoptBestParentCandidate resumeNormal)
  | join : Adopts t { t with route := t.route.takeBestParent }
  | complete : Adopts t t.completeJoin
  | keeps {u v : Remote η} (hu : Adopts t u) (hhops : v.route.hopsToBridge = u.route.hopsToBridge) :
    Adopts t v

/-- The relays above a leaf whose parent announces `hops`, the parent first.  The bridge announces 0, and each
relay took its own parent under the same limit. -/
inductive Path (maxHops : Nat) : UInt8 → List (Remote η) → Prop
  | bridge : Path maxHops 0 []
  | relay {hops : UInt8} {path : List (Remote η)} (s : Remote η) (hmax : s.config.maxHops = maxHops)
      (haccepted : hops.toNat ≤ maxHops) (hhops : s.route.hopsToBridge = hops + 1)
      (hpath : Path maxHops hops path) : Path maxHops (hops + 1) (s :: path)

/-! ## What is sent -/

/-- The senders of `JOIN`, `HEARTBEAT`, `STATE` and `ACK`, with the leaf that each of them leaves. -/
inductive Reports (P : Platform η) (e : Env) (s : Remote η) : Remote η → Prop
  | join : Reports P e s (s.sendJoin P e).1
  | heartbeat : Reports P e s (s.sendHeartbeat P e).1
  | state (index : UInt8) (value : Bytes) (resetRetryState : Bool) :
    Reports P e s (s.sendState P e index value resetRetryState).1
  | ack (payload : Bytes) (refTxCounter : UInt32) : Reports P e s (s.sendAck P e payload refTxCounter).1
  | commandAck (result : UInt8) (refTxCounter : UInt32) :
    Reports P e s (s.sendCommandAck P e result refTxCounter).1
  | configAck (command result : UInt8) (refTxCounter : UInt32) :
    Reports P e s (s.sendConfigAck P e command result refTxCounter).1

/-- One of them hands the frame to the radio. -/
def SendsUp (P : Platform η) (e : Env) (s : Remote η) (f : Frame) : Prop :=
  ∃ t new, Reports P e s t ∧ t.radio.effects = new ++ s.radio.effects ∧
    ∃ mac data sent, .send mac data sent ∈ new ∧ parseFrame data = some f

/-! ## The check -/

/-- The hop check of `on_espnow_frame`. -/
def PassesHops (s : Remote η) (f : Frame) : Prop := (hopsCount f.header.hopCount).toNat < s.config.maxHops

/-- The frame passes the check at each node, and is relayed in between. -/
def PassesAll (c : Crypto) : List (Remote η) → Frame → Prop
  | [], _ => True
  | s :: path, f => s.PassesHops f ∧ PassesAll c path (relayed c f)

/-- Whom the leaf was let in by also lets its frames through, and those of the bridge. -/
structure HopsAgree (P : Platform η) (path : List (Remote η)) (t : Remote η) : Prop where
  up : ∀ u e f, Adopts t u → SendsUp P e u f → PassesAll P.crypto path f
  down : ∀ past f, Bridge.Downlink P.crypto past f → f.header.leafMac = t.config.leafMac →
    PassesAll P.crypto (path.reverse ++ [t]) f

variable {e : Env} {s t u : Remote η} {senderMac : Mac} {f : Frame} {rssi : Int}

/-- An announcement that is taken is within the limit, and is offered to `select_parent_candidate_`. -/
theorem handleDiscoverAnnounce_taken (h : s.handleDiscoverAnnounce e senderMac f rssi = (t, true)) :
    (announcedHops f).toNat ≤ s.config.maxHops ∧
      t = s.selectParentCandidate e senderMac (DiscoverAnnounce.parse f.payload) rssi := by
  unfold handleDiscoverAnnounce at h
  dsimp only at h
  repeat' split at h
  case isFalse hfar => exact ⟨Nat.not_lt.1 hfar, (congrArg Prod.fst h).symm⟩
  all_goals exact absurd (congrArg Prod.snd h) Bool.false_ne_true

theorem selectParentCandidate_config (s : Remote η) (senderMac : Mac) (announce : DiscoverAnnounce) (rssi : Int) :
    (s.selectParentCandidate e senderMac announce rssi).config = s.config := by
  unfold selectParentCandidate
  dsimp only
  split <;> rfl

/-- A leaf that compares candidates has one afterwards. -/
theorem selectParentCandidate_valid (s : Remote η) (senderMac : Mac) (announce : DiscoverAnnounce) (rssi : Int) :
    (s.selectParentCandidate e senderMac announce rssi).route.bestParent.valid = true := by
  unfold selectParentCandidate
  dsimp only
  split
  · rfl
  next hworse =>
    rw [Candidate.isBetter, Bool.or_eq_true, not_or, Bool.or_eq_true, not_or] at hworse
    simpa using hworse.1.1

namespace Considers

/-- The leaf only considers announcements within its limit. -/
theorem announced_le (h : Considers e s senderMac f rssi t) : (announcedHops f).toNat ≤ s.config.maxHops :=
  (handleDiscoverAnnounce_taken h.taken).1

theorem config (h : Considers e s senderMac f rssi t) : t.config = s.config := by
  rw [(handleDiscoverAnnounce_taken h.taken).2, selectParentCandidate_config]

theorem valid (h : Considers e s senderMac f rssi t) : t.route.bestParent.valid = true := by
  rw [(handleDiscoverAnnounce_taken h.taken).2, selectParentCandidate_valid]

end Considers

/-- Taking a candidate for a parent puts the leaf one hop below it. -/
theorem Adopts.hops (h : Adopts t u) (hvalid : t.route.bestParent.valid = true) :
    u.route.hopsToBridge = t.route.bestParent.hopsToBridge + 1 := by
  induction h with
  | resume resumeNormal =>
    rw [adoptBestParentCandidate, if_neg (not_not.2 hvalid)]
    rfl
  | join | complete => rfl
  | keeps hu hhops ih => exact hhops.trans ih

/-- A path has as many relays as were announced, where the limit is within the four bits of the count. -/
theorem Path.length_eq {maxHops : Nat} {hops : UInt8} {path : List (Remote η)} (h : Path maxHops hops path)
    (hmax : maxHops ≤ 15) : path.length = hops.toNat := by
  induction h with
  | bridge => rfl
  | relay s _ haccepted _ hpath ih =>
    rw [List.length_cons, ih, UInt8.toNat_add, UInt8.toNat_one, Nat.mod_eq_of_lt (by omega)]

/-- All relays of a path have one limit. -/
theorem Path.maxHops {maxHops : Nat} {hops : UInt8} {path : List (Remote η)} (h : Path maxHops hops path) :
    ∀ r ∈ path, r.config.maxHops = maxHops := by
  induction h with
  | bridge => exact fun r hr => absurd hr List.not_mem_nil
  | relay s hmax _ _ _ ih => exact List.forall_mem_cons.2 ⟨hmax, ih⟩

/-! ## The hop byte of what is sent -/

/-- A step of a sender: the depth stays, and what goes to the radio has it in the hop byte. -/
structure Climbs (s t : Remote η) : Prop where
  hops : t.route.hopsToBridge = s.route.hopsToBridge
  sent : ∃ new, t.radio.effects = new ++ s.radio.effects ∧
    ∀ mac data sent, .send mac data sent ∈ new → ∀ f, parseFrame data = some f →
      f.header.hopCount = s.upHop

namespace Climbs

/-- A step that sends nothing. -/
theorem quiet (hhops : t.route.hopsToBridge = s.route.hopsToBridge)
    (heffects : t.radio.effects = s.radio.effects) : Climbs s t :=
  ⟨hhops, [], heffects, fun _ _ _ hin => absurd hin List.not_mem_nil⟩

theorem refl (s : Remote η) : Climbs s s := .quiet rfl rfl

/-- A leaf that sends up keeps the hop byte that it sends with. -/
theorem upHop (h : Climbs s t) : t.upHop = s.upHop := by
  unfold Remote.upHop
  rw [h.hops]

theorem trans {r : Remote η} (h : Climbs s t) (h' : Climbs t r) : Climbs s r := by
  obtain ⟨new, hnew, hsent⟩ := h.sent
  obtain ⟨new', hnew', hsent'⟩ := h'.sent
  refine ⟨h'.hops.trans h.hops, new' ++ new, by rw [hnew', hnew, List.append_assoc], ?_⟩
  intro mac data sent hin f hparse
  rcases List.mem_append.1 hin with hin | hin
  · exact (hsent' mac data sent hin f hparse).trans h.upHop
  · exact hsent mac data sent hin f hparse

theorem note (s : Remote η) {eff : Effect} (heff : ∀ mac data sent, eff ≠ .send mac data sent) :
    Climbs s (s.note eff) := by
  refine ⟨rfl, [eff], rfl, fun mac data sent hin => ?_⟩
  exact absurd (List.mem_singleton.1 hin).symm (heff mac data sent)

end Climbs

variable {P : Platform η}

/-- A frame with the hop byte of the leaf may go out. -/
theorem transmit_climbs (s : Remote η) (mac : Mac) {frame : Frame} (h : frame.header.hopCount = s.upHop) :
    Climbs s (s.transmit e mac frame).1 := by
  refine ⟨rfl, [.send mac frame.bytes (e.sendOk s.radio.effects.length)], rfl, ?_⟩
  intro mac' data sent hin f hparse
  obtain ⟨-, rfl, -⟩ := Effect.send.inj (List.mem_singleton.1 hin)
  rw [header_of_bytes hparse, h]

theorem sendSealed_climbs (s : Remote η) (mac : Mac) (type : PacketType) (tx : UInt32) (plaintext : Bytes) :
    Climbs s (s.sendSealed P e mac type s.upHop tx plaintext).1 := by
  unfold sendSealed
  split
  · exact .refl s
  split
  · exact .refl s
  · have hnote : Climbs s (s.note (.encrypt type s.session.sessionKey tx plaintext)) := .note s fun _ _ _ => nofun
    exact hnote.trans (transmit_climbs _ _ rfl)

theorem sendUp_climbs (s : Remote η) (type : PacketType) (plaintext : Bytes) :
    Climbs s (s.sendUp P e type plaintext).1 := by
  have hbump : Climbs s s.bumpTxCounter := .quiet rfl rfl
  exact hbump.trans (sendSealed_climbs s.bumpTxCounter _ _ _ _)

theorem sendUpTracked_climbs (s : Remote η) (type : PacketType) (plaintext : Bytes) :
    Climbs s (s.sendUpTracked P e type plaintext).1 := by
  unfold sendUpTracked
  dsimp only
  split
  · exact .quiet rfl rfl
  next ciphertext _ =>
    set t := s.bumpTxCounter.updateOutstandingRequest P type s.radio.txCounter ciphertext with ht
    have htracked : Climbs s t := .quiet rfl rfl
    exact htracked.trans (sendSealed_climbs t _ _ _ _)

/-- So everything that a leaf sends up has its hop byte. -/
theorem Climbs.sendClosed : SendClosed P e Climbs where
  refl := .refl
  trans := .trans
  ack s plaintext := sendUpTracked_climbs s _ plaintext
  state s plaintext := sendUpTracked_climbs s _ plaintext
  schemaPush s plaintext := sendUp_climbs s _ plaintext
  failed _ _ := .quiet rfl rfl
  remembered s index value _ base reset := by
    have hremember : Climbs s (s.rememberState e index value base reset) := .quiet rfl rfl
    exact hremember.trans (.note _ fun _ _ _ => nofun)

/-- All of them send with the depth of the leaf. -/
theorem Reports.climbs (h : Reports P e s t) : Climbs s t := by
  cases h with
  | join =>
    unfold sendJoin
    split
    · exact .refl s
    · exact ⟨rfl, (transmit_climbs _ _ rfl).sent⟩
  | heartbeat =>
    unfold sendHeartbeat
    split
    · exact .refl s
    · exact (sendUp_climbs s _ _).trans (.quiet rfl rfl)
  | state index value reset => exact Climbs.sendClosed.sendState s index value reset
  | ack payload ref => exact Climbs.sendClosed.sendAck s payload ref
  | commandAck result ref => exact Climbs.sendClosed.sendCommandAck s result ref
  | configAck command result ref => exact Climbs.sendClosed.sendConfigAck s command result ref

/-- What a leaf sends up carries its depth. -/
theorem SendsUp.hopCount (h : SendsUp P e s f) : f.header.hopCount = s.upHop := by
  obtain ⟨t, new, hreports, hnew, mac, data, sent, hin, hparse⟩ := h
  obtain ⟨new', hnew', hsent⟩ := hreports.climbs.sent
  obtain rfl : new = new' := List.append_cancel_right (hnew.symm.trans hnew')
  exact hsent mac data sent hin f hparse

/-- A leaf with a parent can send a `JOIN`. -/
theorem exists_sendsUp (P : Platform η) (e : Env) (hparent : s.route.parentValid)
    (hvalid : s.route.bestParent.valid) : ∃ f, SendsUp P e s f := by
  set t : Remote η := { s with discovery := { s.discovery with joinDelayUntilMs := 0 } } with ht
  set frame := plain P.crypto t.config.leafMac .join t.upHop t.radio.txCounter none (t.joinRequest P).bytes
    with hframe
  have hfits : frame.WellFormed := plain_wellFormed rfl (hasParentCheck_upHop t).symm (by
    rw [Join.length_bytes, headerSize, hasParentCheck_upHop t]
    decide)
  have hsent : (s.sendJoin P e).1.radio.effects =
      [.send s.route.parentMac frame.bytes (e.sendOk s.radio.effects.length)] ++ s.radio.effects := by
    rw [sendJoin, if_neg (by simp [hparent, hvalid])]
    rfl
  exact ⟨frame, _, _, .join, hsent, _, _, _, List.mem_singleton_self _, parseFrame_bytes hfits⟩

/-! ## The count along a path -/

/-- The depth is cut off at four bits. -/
theorem upHop_spec (s : Remote η) : hopsIsUpstream s.upHop = true ∧
    (hopsCount s.upHop).toNat = s.route.hopsToBridge.toNat % 16 := by
  have hfin : ∀ i : Fin 256, hopsIsUpstream (hopsMake 0 (UInt8.ofFin i)) = true ∧
      (hopsCount (hopsMake 0 (UInt8.ofFin i))).toNat = (UInt8.ofFin i).toNat % 16 := by
    decide +kernel
  exact hfin s.route.hopsToBridge.toFin

/-- A relay adds one to the hops behind a frame, in four bits. -/
theorem hopsBehind_relayed (c : Crypto) (f : Frame) (i : Nat) :
    hopsBehind (relayed c f) i % 16 = hopsBehind f (i + 1) % 16 := by
  rw [hopsBehind, hopsCount_relayed, hopsBehind, hopsBehind, relayed_hopCount, (forwardHop_spec _).1]
  cases hopsIsUpstream f.header.hopCount with
  | true => simp
  | false =>
    simp only [Bool.false_eq_true, if_false]
    omega

/-- Where all nodes have the same limit, the counts behind each number of relays have to be below it. -/
theorem passesAll_iff (c : Crypto) {maxHops : Nat} {path : List (Remote η)}
    (hmax : ∀ r ∈ path, r.config.maxHops = maxHops) (f : Frame) :
    PassesAll c path f ↔ ∀ i < path.length, hopsBehind f i % 16 < maxHops := by
  induction path generalizing f with
  | nil => exact ⟨fun _ i hi => absurd hi (Nat.not_lt_zero i), fun _ => trivial⟩
  | cons r path ih =>
    obtain ⟨hr, hpath⟩ := List.forall_mem_cons.1 hmax
    have hfirst : r.PassesHops f ↔ hopsBehind f 0 % 16 < maxHops := by
      have hcount := hopsCount_lt f.header.hopCount
      rw [PassesHops, hr, hopsBehind, ite_self, Nat.add_zero, Nat.mod_eq_of_lt hcount]
    rw [PassesAll, hfirst, ih hpath]
    simp only [hopsBehind_relayed]
    constructor
    · rintro ⟨hzero, hrest⟩ i hi
      cases i with
      | zero => exact hzero
      | succ i => exact hrest i (Nat.lt_of_succ_lt_succ hi)
    · intro h
      exact ⟨h 0 (Nat.succ_pos _), fun i hi => h (i + 1) (Nat.succ_lt_succ hi)⟩

/-- Upstream the count stays what it was. -/
theorem passesAll_up (c : Crypto) {maxHops : Nat} {path : List (Remote η)}
    (hmax : ∀ r ∈ path, r.config.maxHops = maxHops) {f : Frame} (hf : f.header.hopCount = u.upHop) :
    PassesAll c path f ↔ path = [] ∨ u.route.hopsToBridge.toNat % 16 < maxHops := by
  have hbehind (i : Nat) : hopsBehind f i % 16 = u.route.hopsToBridge.toNat % 16 := by
    rw [hopsBehind, hf, if_pos (upHop_spec u).1, (upHop_spec u).2, Nat.add_zero, Nat.mod_mod]
  simp only [passesAll_iff c hmax, hbehind]
  cases path with
  | nil => simp
  | cons r path =>
    have hne : r :: path ≠ [] := List.cons_ne_nil r path
    exact ⟨fun h => .inr (h 0 (Nat.succ_pos _)), fun h _ _ => h.resolve_left hne⟩

/-- Downstream it is the number of relays behind. -/
theorem passesAll_down (c : Crypto) {maxHops : Nat} {path : List (Remote η)}
    (hmax : ∀ r ∈ path, r.config.maxHops = maxHops) {f : Frame} (hf : f.header.hopCount = Bridge.downHop) :
    PassesAll c path f ↔ 15 < maxHops ∨ path.length ≤ maxHops := by
  have hbehind (i : Nat) : hopsBehind f i = i := by
    rw [hopsBehind, hf]
    exact Nat.zero_add i
  simp only [passesAll_iff c hmax, hbehind]
  constructor
  · intro h
    by_contra hnot
    obtain ⟨hsmall, hlong⟩ := not_or.1 hnot
    have hlast := h maxHops (by omega)
    omega
  · intro h i hi
    omega

/-! ## The limit -/

/-- Those that are let in are heard and hear, if the limit is beyond the four bits of the count, or if it
exceeds the depth that the leaf gets, or if the leaf has the bridge for its parent. -/
theorem hopsAgree_iff (P : Platform η) {maxHops : Nat} {path : List (Remote η)}
    (hmax : s.config.maxHops = maxHops) (hconsiders : Considers e s senderMac f rssi t)
    (hpath : Path maxHops (announcedHops f) path) :
    HopsAgree P path t ↔ 15 < maxHops ∨ (announcedHops f).toNat + 1 < maxHops ∨
      (announcedHops f = 0 ∧ 0 < maxHops) := by
  have hannounced : (announcedHops f).toNat ≤ maxHops := hmax ▸ hconsiders.announced_le
  have hzero : announcedHops f = 0 ↔ (announcedHops f).toNat = 0 := UInt8.toNat_inj.symm
  have hup := hpath.maxHops
  have hdown : ∀ r ∈ path.reverse ++ [t], r.config.maxHops = maxHops := by
    intro r hr
    rcases List.mem_append.1 hr with hr | hr
    · exact hup r (List.mem_reverse.1 hr)
    · rw [List.mem_singleton.1 hr, hconsiders.config, hmax]
  have hlength : (path.reverse ++ [t]).length = path.length + 1 := by simp
  have hdepth {u : Remote η} (hu : Adopts t u) :
      u.route.hopsToBridge.toNat % 16 = ((announcedHops f).toNat + 1) % 16 := by
    rw [hu.hops hconsiders.valid, hconsiders.hops, UInt8.toNat_add, UInt8.toNat_one]
    omega
  constructor
  · intro hagree
    by_contra hnot
    obtain ⟨hsmall, hdeep⟩ := not_or.1 hnot
    have hlen := hpath.length_eq (Nat.not_lt.1 hsmall)
    -- a frame from the bridge reaches the leaf
    have hheard := (passesAll_down P.crypto hdown rfl).1 (hagree.down []
      (plain P.crypto t.config.leafMac .deauth Bridge.downHop 0 none []) (.plain _ .deauth _ _ rfl) rfl)
    -- and a `JOIN` of the leaf reaches the bridge
    have hadopts : Adopts t { t with route := t.route.takeBestParent } := .join
    obtain ⟨g, hg⟩ := exists_sendsUp P e (s := { t with route := t.route.takeBestParent }) rfl hconsiders.valid
    have hsent := (passesAll_up P.crypto hup hg.hopCount).1 (hagree.up _ e g hadopts hg)
    rw [hdepth hadopts] at hsent
    rcases hsent with hnil | hsent
    · rw [hnil] at hlen hheard
      rw [hzero] at hdeep
      simp only [List.length_nil, List.reverse_nil, List.nil_append, List.length_singleton] at hlen hheard
      omega
    · omega
  · intro hfits
    constructor
    · intro u e' g hu hg
      rw [passesAll_up P.crypto hup hg.hopCount, hdepth hu]
      rcases hfits with hlarge | hdeep | ⟨hfirst, -⟩
      · exact .inr (by omega)
      · exact .inr (by omega)
      · by_cases hsmall : maxHops ≤ 15
        · have hlen := hpath.length_eq hsmall
          rw [hfirst] at hlen
          exact .inl (List.length_eq_zero_iff.1 hlen)
        · exact .inr (by omega)
    · intro past g hg _
      have hhop : g.header.hopCount = Bridge.downHop := by cases hg <;> rfl
      rw [passesAll_down P.crypto hdown hhop, hlength]
      by_cases hsmall : maxHops ≤ 15
      · have hlen := hpath.length_eq hsmall
        rw [hzero] at hfits
        omega
      · exact .inl (Nat.not_le.1 hsmall)

/-! ## Runs -/

/-- The addresses of a leaf and of the relay that answers it. -/
def joinerMac : Mac := Octets.fit 6 [1]
def answererMac : Mac := Octets.fit 6 [9]

/-- A leaf that looks for a parent. -/
def joinerLeaf : Remote Unit where
  config := { leafMac := joinerMac }
  discovery := { discovering := true, sweepComplete := true, initialPending := false }
  files := { handlers := fun _ => none }

/-- A relay of that depth. -/
def relayAt (depth : UInt8) : Remote Unit where
  config := { leafMac := answererMac }
  session := { joined := true, normal := true }
  route := { parentValid := true, canRelay := true, relayEnabled := true, hopsToBridge := depth }
  files := { handlers := fun _ => none }

/-- Its announcement. -/
def relayOffer (depth : UInt8) : Frame :=
  plain .sample joinerMac .discoverAnnounce Bridge.downHop 0 none
    ((relayAt depth).discoverAnnounce nodeRoleRelay depth).bytes

/-- The leaf with the relay as its candidate. -/
def joinerAt (depth : UInt8) : Remote Unit :=
  (joinerLeaf.handleDiscoverAnnounce (.quiet 100 (Octets.zero 16)) answererMac (relayOffer depth) (-50)).1

/-- What the leaf broadcasts. -/
def joinerProbe : Frame :=
  plain .sample joinerMac .discover (hopsMake 0 0) 0 none (Discover.bytes ⟨fixedField 32 [], 0, 0⟩)

/-- The `JOIN` of the leaf. -/
def joinerJoin (depth : UInt8) : Bytes :=
  ((joinerAt depth).loopJoin .sample (.quiet 5000 (Octets.zero 16))).1.radio.effects.flatMap fun eff =>
    match eff with
    | .send _ data _ => data
    | _ => []

theorem joinerAt_considers {depth : UInt8}
    (h : (joinerLeaf.handleDiscoverAnnounce (.quiet 100 (Octets.zero 16)) answererMac (relayOffer depth)
      (-50)).2 ∧ (joinerAt depth).route.bestParent.nextHopMac = answererMac ∧
      (joinerAt depth).route.bestParent.hopsToBridge = announcedHops (relayOffer depth)) :
    Considers (.quiet 100 (Octets.zero 16)) joinerLeaf answererMac (relayOffer depth) (-50) (joinerAt depth) :=
  ⟨Prod.ext rfl h.1, h.2.1, h.2.2⟩

/-- One relay more. -/
theorem path_relayAt {depth : UInt8} {path : List (Remote Unit)} (h : Path 5 depth path)
    (hdepth : depth.toNat ≤ 5) : Path 5 (depth + 1) (relayAt (depth + 1) :: path) := .relay _ rfl hdepth rfl h

theorem path_one : Path 5 1 [relayAt 1] := path_relayAt .bridge (by decide)

theorem path_five : Path 5 5 [relayAt 5, relayAt 4, relayAt 3, relayAt 2, relayAt 1] := by
  have htwo : Path 5 2 [relayAt 2, relayAt 1] := path_relayAt path_one (by decide)
  have hthree : Path 5 3 [relayAt 3, relayAt 2, relayAt 1] := path_relayAt htwo (by decide)
  have hfour : Path 5 4 [relayAt 4, relayAt 3, relayAt 2, relayAt 1] := path_relayAt hthree (by decide)
  exact path_relayAt hfour (by decide)

/-- A leaf under the first relay of a tree is heard, with the limit of five that is the default. -/
theorem hopsAgree_joinerLeaf : HopsAgree .sample [relayAt 1] (joinerAt 1) := by
  have hrun : ((joinerLeaf.handleDiscoverAnnounce (.quiet 100 (Octets.zero 16)) answererMac (relayOffer 1)
      (-50)).2 ∧ (joinerAt 1).route.bestParent.nextHopMac = answererMac ∧
      (joinerAt 1).route.bestParent.hopsToBridge = announcedHops (relayOffer 1)) ∧
      announcedHops (relayOffer 1) = 1 := by decide +kernel
  have hpath : Path 5 (announcedHops (relayOffer 1)) [relayAt 1] := hrun.2 ▸ path_one
  refine (hopsAgree_iff .sample rfl (joinerAt_considers hrun.1) hpath).2 (.inr (.inl ?_))
  rw [hrun.2]
  decide

/-- A relay at the limit answers the leaf and drops its `JOIN`. -/
theorem not_hopsAgree_joinerLeaf :
    ((relayAt 5).handleDiscover (.quiet 90 (Octets.zero 16)) joinerMac joinerProbe).2 ∧
      Considers (.quiet 100 (Octets.zero 16)) joinerLeaf answererMac (relayOffer 5) (-50) (joinerAt 5) ∧
      Path 5 (announcedHops (relayOffer 5)) [relayAt 5, relayAt 4, relayAt 3, relayAt 2, relayAt 1] ∧
      (parseFrame (joinerJoin 5)).map Frame.type? = some (some .join) ∧
      ((relayAt 5).onEspnowFrame .sample (.quiet 5000 (Octets.zero 16)) joinerMac (joinerJoin 5) (-50)).2 =
        false ∧
      ¬ HopsAgree .sample [relayAt 5, relayAt 4, relayAt 3, relayAt 2, relayAt 1] (joinerAt 5) := by
  have hrun : ((relayAt 5).handleDiscover (.quiet 90 (Octets.zero 16)) joinerMac joinerProbe).2 ∧
      ((joinerLeaf.handleDiscoverAnnounce (.quiet 100 (Octets.zero 16)) answererMac (relayOffer 5) (-50)).2 ∧
        (joinerAt 5).route.bestParent.nextHopMac = answererMac ∧
        (joinerAt 5).route.bestParent.hopsToBridge = announcedHops (relayOffer 5)) ∧
      announcedHops (relayOffer 5) = 5 ∧
      (parseFrame (joinerJoin 5)).map Frame.type? = some (some .join) ∧
      ((relayAt 5).onEspnowFrame .sample (.quiet 5000 (Octets.zero 16)) joinerMac (joinerJoin 5) (-50)).2 =
        false := by decide +kernel
  obtain ⟨hanswers, hconsiders, hhops, hjoin, hdrops⟩ := hrun
  have hpath : Path 5 (announcedHops (relayOffer 5)) [relayAt 5, relayAt 4, relayAt 3, relayAt 2, relayAt 1] :=
    hhops ▸ path_five
  refine ⟨hanswers, joinerAt_considers hconsiders, hpath, hjoin, hdrops, fun hagree => ?_⟩
  -- its `JOIN` would have to pass the first relay
  have hvalid : (joinerAt 5).route.bestParent.valid := (joinerAt_considers hconsiders).valid
  obtain ⟨g, hg⟩ := exists_sendsUp .sample (.quiet 5000 (Octets.zero 16))
    (s := { joinerAt 5 with route := (joinerAt 5).route.takeBestParent }) rfl hvalid
  have hpasses := (hagree.up _ _ g .join hg).1
  rw [PassesHops, hg.hopCount, (upHop_spec _).2, Adopts.hops .join hvalid, hconsiders.2.2, hhops] at hpasses
  exact absurd hpasses (by decide)

end Remote

end EspTree
