import EspTree.Integration.Record

/-!
# The reports of one remote

What the reports of a remote say of it, in the order in which they come: a bridge describes it, then it is
available or not, in a session, and somewhere in the tree.  `Picture.tell` is what one report makes of the
picture, and `tellFrame` what a frame does.

There is a picture as long as the reports agree with each other since a bridge last described the remote: one that
says that it is available is the newest of its session or opens another, one that says that it is lost names the
bridge and the session that it is known by, and a state comes from this bridge while the remote is available.  After
any other report the picture is `none` until the remote is described again.  The add-on takes such a report all the
same, the integration refuses most of them, and what they show may differ from then on
(`EspTreeRuntime.online_handleState_of_offline`).

The add-on shows the picture that the frames of its bridges have told (`Tracks.handleFrame`); it forgets a remote
that its bridge leaves behind (`keep`) or that goes with its bridge (`leave`).
-/

namespace EspTree.Integration

open Wire
open AddOn.Rename (Text)

/-! ## How addresses are written -/

/-- The addresses of bridges and of remotes are written in the way of `norm`, and none is of both. -/
structure Addressing (norm : Text → Text) (bridges remotes : Set Text) : Prop where
  norm_bridge : ∀ mac ∈ bridges, norm mac = mac
  norm_remote : ∀ mac ∈ remotes, norm mac = mac
  bridge_ne_nil : ∀ mac ∈ bridges, mac ≠ []
  ne : ∀ mac ∈ remotes, ∀ bridgeMac ∈ bridges, mac ≠ bridgeMac

/-- The addresses that bridges print are written in one way. -/
theorem addressing_printed {norm : Text → Text} (hnorm : ∀ mac, norm (macColonString mac) = macColonString mac)
    {bs rs : Set Mac} (hne : ∀ r ∈ rs, ∀ b ∈ bs, macColonString r ≠ macColonString b) :
    Addressing norm (macColonString '' bs) (macColonString '' rs) where
  norm_bridge := by
    rintro _ ⟨b, -, rfl⟩
    exact hnorm b
  norm_remote := by
    rintro _ ⟨r, -, rfl⟩
    exact hnorm r
  bridge_ne_nil := by
    rintro _ ⟨b, -, rfl⟩ hnil
    obtain ⟨_, _, _, _, _, _, _, _, _, _, _, _, htext, -⟩ := macColonString_eq b
    cases htext.symm.trans hnil
  ne := by
    rintro _ ⟨r, hr, rfl⟩ _ ⟨b, hb, rfl⟩
    exact hne r hr b hb

/-- The addresses of an event, and the bridge of a description. -/
def Event.Proper (bridges remotes : Set Text) (client : Client) : Event → Prop
  | .availability ev => ev.remoteMac ∈ remotes ∧ ev.bridgeMac ∈ bridges
  | .state ev => ev.remoteMac ∈ remotes ∧ ev.bridgeMac ∈ bridges
  | .schemaChanged bridgeMac snapshot => snapshot.identity.remoteMac ∈ remotes ∧ bridgeMac = client.bridgeMac ∧
      (snapshot.runtime.bridgeMac = [] ∨ snapshot.runtime.bridgeMac = client.bridgeMac)
  | .metadataChanged identity runtime => identity.remoteMac ∈ remotes ∧ runtime.bridgeMac = client.bridgeMac
  | .topologyChanged ev => ev.remoteMac ∈ remotes ∧ ev.bridgeMac = client.bridgeMac
  | .heartbeat ev => ev.bridgeMac ∈ bridges
  | .unknown => True

/-- The addresses of a frame. -/
def Frame.Proper (bridges remotes : Set Text) (client : Client) : Frame → Prop
  | .snapshot full => full.bridgeMac = client.bridgeMac ∧ ∀ remote ∈ full.remotes,
      remote.identity.remoteMac ∈ remotes ∧
        (remote.runtime.bridgeMac = [] ∨ remote.runtime.bridgeMac = client.bridgeMac)
  | .events batch => ∀ ev ∈ batch, ev.Proper bridges remotes client

/-- A snapshot that does not list the remote. -/
def Frame.omits (mac : Text) : Frame → Bool
  | .snapshot full => (full.remotes.reverse.find? fun remote => remote.identity.remoteMac = mac).isNone
  | .events _ => false

/-! ## The picture of a remote -/

/-- What has been reported of a remote: the client and the bridge that had it last, and the bridge that
described it. -/
structure Picture where
  bridgeUuid : Text
  describedBy : Text
  bridgeMac : Text
  sessionId : Text
  txCounter : Nat
  online : Bool
  parentMac : Text
  hops : Nat
  rssi : Int
  uptimeS : Nat
  deriving DecidableEq

namespace Picture

/-- A bridge has described the remote. -/
def described (client : Client) (runtime : RemoteRuntime) : Picture :=
  { bridgeUuid := client.bridgeUuid, describedBy := client.bridgeMac, bridgeMac := client.bridgeMac,
    sessionId := runtime.sessionId, txCounter := runtime.lastTxCounter, online := runtime.online,
    parentMac := runtime.parentMac, hops := runtime.hopsToBridge, rssi := runtime.rssi, uptimeS := runtime.uptimeS }

/-- A report belongs to a new session, or it is the newest of its session by the counter. -/
def Newest (p : Picture) (bridgeMac sessionId : Text) (txCounter : Nat) : Prop :=
  p.sessionId = [] ∨ p.sessionId ≠ sessionId ∨
    if p.bridgeMac = bridgeMac then p.txCounter ≤ txCounter else p.txCounter < txCounter

instance (p : Picture) (bridgeMac sessionId : Text) (txCounter : Nat) :
    Decidable (p.Newest bridgeMac sessionId txCounter) :=
  inferInstanceAs (Decidable (_ ∨ _ ∨ _))

/-- The remote is reported available, or it is reported lost where it was. -/
def available (client : Client) (ev : Availability) (p : Picture) : Option Picture :=
  if ev.online then
    if p.Newest ev.bridgeMac ev.sessionId ev.txCounter then
      some { p with
        bridgeUuid := client.bridgeUuid, bridgeMac := ev.bridgeMac, sessionId := ev.sessionId,
        txCounter := ev.txCounter, online := true, hops := ev.hopsToBridge, rssi := ev.rssi, uptimeS := ev.uptimeS }
    else none
  else if p.bridgeMac = ev.bridgeMac ∧ p.sessionId = ev.sessionId then
    some { p with bridgeUuid := client.bridgeUuid, online := false }
  else none

/-- The state of a remote that is there; an older one leaves the counter. -/
def state (ev : StateEvent) (p : Picture) : Option Picture :=
  if p.online = true ∧ p.bridgeMac = ev.bridgeMac then
    some { p with
      sessionId := ev.sessionId
      txCounter := if p.sessionId = [] ∨ p.sessionId ≠ ev.sessionId then ev.txCounter
        else max p.txCounter ev.txCounter }
  else none

/-- The place of a remote in the tree. -/
def topology (ev : TopologyChanged) (p : Picture) : Picture :=
  { p with parentMac := ev.parentMac, hops := ev.hopsToBridge, rssi := ev.rssi, uptimeS := ev.uptimeS }

/-- The picture of `mac` after an event, if it was `p` before. -/
def tell (client : Client) (mac : Text) (p : Option Picture) : Event → Option Picture
  | .availability ev => if ev.remoteMac = mac then p.bind (available client ev) else p
  | .state ev => if ev.remoteMac = mac then p.bind (state ev) else p
  | .schemaChanged _ snapshot =>
    if snapshot.identity.remoteMac = mac then some (described client snapshot.runtime) else p
  | .metadataChanged identity runtime => if identity.remoteMac = mac then some (described client runtime) else p
  | .topologyChanged ev => if ev.remoteMac = mac then p.map (topology ev) else p
  | .heartbeat _ => p
  | .unknown => p

/-- A snapshot describes the remotes that it lists. -/
def tellSnapshot (client : Client) (mac : Text) (p : Option Picture) (snapshot : FullSnapshot) : Option Picture :=
  match snapshot.remotes.reverse.find? fun remote => remote.identity.remoteMac = mac with
  | some remote => some (described client remote.runtime)
  | none => p

def tellFrame (client : Client) (mac : Text) (p : Option Picture) : Frame → Option Picture
  | .snapshot snapshot => tellSnapshot client mac p snapshot
  | .events batch => batch.foldl (tell client mac) p

/-- A bridge that has gone takes its remotes along. -/
def leave (client : Client) (p : Option Picture) : Option Picture := p.filter fun p => p.describedBy ≠ client.bridgeMac

/-- A bridge leaves the remotes behind that its snapshot does not list. -/
def keep (client : Client) (mac : Text) (frame : Frame) (p : Option Picture) : Option Picture :=
  if frame.omits mac then leave client p else p

end Picture

/-! ## The add-on -/

/-- The node of a remote shows its picture.  Of a remote that is lost there is no link to show. -/
structure Shown.Of (norm : Text → Text) (p : Picture) (shown : Shown) : Prop where
  online : shown.online = p.online
  session : shown.sessionId = p.sessionId
  parent : shown.parentMac = some (norm p.parentMac)
  describedBy : shown.bridgeMac = p.describedBy
  link : p.online = true → shown.hops = p.hops ∧ shown.rssi = p.rssi ∧ shown.uptimeS = p.uptimeS

/-- The route to a remote with this picture. -/
def Picture.route (p : Picture) (mac : Text) : RemoteRoute :=
  { bridgeUuid := p.bridgeUuid, bridgeMac := p.bridgeMac, remoteMac := mac, sessionId := p.sessionId }

namespace BridgeV2Manager

variable {norm : Text → Text} {m : BridgeV2Manager} {now : Nat} {client : Client} {mac : Text} {p : Option Picture}

/-- The add-on shows the picture: by the node of the remote, and by the route to it. -/
structure Shows (norm : Text → Text) (m : BridgeV2Manager) (mac : Text) (p : Picture) : Prop where
  node : ∃ shown ∈ m.shown? mac, shown.Of norm p
  route : m.routes.get? mac = some (p.route mac)

/-- The add-on shows what has been told, if the reports agree. -/
def Tracks (norm : Text → Text) (m : BridgeV2Manager) (mac : Text) (p : Option Picture) : Prop :=
  ∀ q ∈ p, m.Shows norm mac q

/-- Commands for a remote go by the client that has reported it last, as long as this is connected. -/
theorem Shows.routeForRemote {p : Picture} (h : m.Shows norm mac p) (hnorm : norm mac = mac) (connected : Text → Bool) :
    m.routeForRemote norm connected mac = if connected p.bridgeUuid then some (p.route mac) else none := by
  rw [BridgeV2Manager.routeForRemote, hnorm, h.route, Option.filter_some]
  rfl

/-- A change that leaves the record of the remote. -/
theorem Tracks.of_record {m' : BridgeV2Manager} (h : m.Tracks norm mac p) (hrecord : m'.record mac = m.record mac) :
    m'.Tracks norm mac p := by
  obtain ⟨hshown, hroute⟩ := Prod.mk.inj hrecord
  intro q hq
  obtain ⟨hnode, hq⟩ := h q hq
  exact ⟨hshown.symm ▸ hnode, hroute.trans hq⟩

/-- A remote that was described is shown as it was described. -/
theorem Shows.described {bridgeMac : Text} {runtime : RemoteRuntime} (hbridge : client.bridgeMac = bridgeMac)
    (hshown : m.shown? mac = some (describedShown norm bridgeMac runtime))
    (hroute : m.routes.get? mac = some (routeFor client bridgeMac mac runtime.sessionId)) :
    m.Shows norm mac (Picture.described client runtime) := by
  subst hbridge
  exact ⟨⟨_, hshown, rfl, rfl, rfl, rfl, fun _ => ⟨rfl, rfl, rfl⟩⟩, hroute⟩

/-- With a bridge the picture of its remotes goes. -/
theorem Tracks.forgetBridge (h : m.Tracks norm mac p) :
    (m.forgetBridge client).Tracks norm mac (Picture.leave client p) := by
  intro q hq
  obtain ⟨hp, hdescribed⟩ := Option.filter_eq_some_iff.mp hq
  obtain ⟨shown, hshown, hof⟩ := (h q hp).node
  refine h.of_record (record_forgetBridge.trans (if_neg ?_)) q hp
  rintro ⟨-, -, shown', hshown', hgone⟩
  cases (Option.mem_unique hshown hshown' : shown = shown')
  exact of_decide_eq_true hdescribed (hof.describedBy.symm.trans hgone)

section

variable {bridges remotes : Set Text} (haddr : Addressing norm bridges remotes) (hmac : mac ∈ remotes)

include haddr

/-- After a report the add-on shows what the report makes of the picture, as long as there is one.
-/
theorem Tracks.handleAvailability {ev : Availability} (hremote : ev.remoteMac ∈ remotes)
    (hbridge : ev.bridgeMac ∈ bridges) (h : m.Tracks norm mac p) : (m.handleAvailability norm now client ev).Tracks norm mac
      (Picture.tell client mac p (.availability ev)) := by
  have hrecord : (m.handleAvailability norm now client ev).record mac = _ := record_handleAvailability ev
  rw [haddr.norm_remote _ hremote] at hrecord
  rw [Picture.tell]
  split_ifs with heq
  · subst heq
    rw [if_pos rfl, availableRecord, orElse, if_neg (haddr.bridge_ne_nil _ hbridge), haddr.norm_bridge _ hbridge,
      haddr.norm_remote _ hremote] at hrecord
    intro q hq
    obtain ⟨p, hp, hq⟩ := Option.bind_eq_some_iff.mp hq
    obtain ⟨⟨shown, hshown, hof⟩, hroute⟩ := h p hp
    rw [record, record, Option.mem_def.mp hshown, hroute] at hrecord
    obtain ⟨hnode', hroute'⟩ := Prod.mk.inj hrecord
    rw [Picture.available] at hq
    split_ifs at hq with honline hnewest hsame
    · cases Option.some.inj hq
      exact ⟨⟨_, hnode', honline, rfl, hof.parent, hof.describedBy, fun _ => ⟨rfl, rfl, rfl⟩⟩, hroute'⟩
    · cases Option.some.inj hq
      refine ⟨⟨_, hnode', Bool.eq_false_of_not_eq_true honline, hsame.2.symm, hof.parent, hof.describedBy,
        fun h => absurd h Bool.false_ne_true⟩, hroute'.trans ?_⟩
      rw [← hsame.1, ← hsame.2]
      rfl
  · exact h.of_record (hrecord.trans (if_neg (Ne.symm heq)))

/-- A state changes the session of the remote, and its route. -/
theorem Tracks.handleState {ev : StateEvent} (hremote : ev.remoteMac ∈ remotes) (h : m.Tracks norm mac p) :
    (m.handleState norm now ev).Tracks norm mac (Picture.tell client mac p (.state ev)) := by
  have hnode : (m.handleState norm now ev).shown? mac = _ := shown?_handleState ev
  have hroute : (m.handleState norm now ev).routes.get? mac = _ :=
    (congrArg (·.get? mac) (routes_handleState ev)).trans (routes_setSession _ _)
  rw [haddr.norm_remote _ hremote] at hnode hroute
  rw [Picture.tell]
  split_ifs with heq
  · subst heq
    rw [if_pos rfl] at hnode hroute
    intro q hq
    obtain ⟨p, hp, hq⟩ := Option.bind_eq_some_iff.mp hq
    obtain ⟨⟨shown, hshown, hof⟩, hold⟩ := h p hp
    rw [Option.mem_def.mp hshown, hold, Option.map_some] at hnode
    rw [hold, Option.map_some] at hroute
    rw [Picture.state, Option.ite_none_right_eq_some] at hq
    obtain ⟨hsame, hq⟩ := hq
    cases Option.some.inj hq
    exact ⟨⟨_, hnode, hof.online, if_pos ⟨hof.online.trans hsame.1, rfl⟩, hof.parent, hof.describedBy, hof.link⟩, hroute⟩
  · rw [if_neg (Ne.symm heq)] at hnode hroute
    exact h.of_record (Prod.ext hnode hroute)

/-- A snapshot of the remote describes it. -/
theorem Tracks.handleRemoteSnapshot {snapshot : RemoteSnapshot} {bridgeMac : Text}
    (hremote : snapshot.identity.remoteMac ∈ remotes) (hclient : client.bridgeMac ∈ bridges)
    (hbridge : bridgeMac = client.bridgeMac) (h : m.Tracks norm mac p) :
    (m.handleRemoteSnapshot norm now client snapshot bridgeMac).Tracks norm mac
      (if snapshot.identity.remoteMac = mac then some (Picture.described client snapshot.runtime) else p) := by
  subst hbridge
  have hnode : (m.handleRemoteSnapshot norm now client snapshot client.bridgeMac).shown? mac = _ :=
    shown?_handleRemoteSnapshot _ _
  have hroute : (m.handleRemoteSnapshot norm now client snapshot client.bridgeMac).routes.get? mac = _ :=
    (congrArg (·.get? mac) (routes_handleRemoteSnapshot _ _)).trans Dict.get?_set
  have hown : remoteBridge norm client snapshot client.bridgeMac = client.bridgeMac := by
    have hne := haddr.bridge_ne_nil _ hclient
    rw [remoteBridge, orElse, orElse, if_neg hne, if_neg hne, haddr.norm_bridge _ hclient]
  rw [haddr.norm_remote _ hremote, haddr.norm_remote _ hremote, hown] at hnode hroute
  split_ifs with heq
  · subst heq
    rw [if_pos rfl] at hnode hroute
    rintro q ⟨⟩
    exact Shows.described rfl hnode hroute
  · rw [if_neg (Ne.symm heq)] at hnode hroute
    exact h.of_record (Prod.ext hnode hroute)

theorem Tracks.handleTopologyChanged {ev : TopologyChanged} (hremote : ev.remoteMac ∈ remotes)
    (h : m.Tracks norm mac p) : (m.handleTopologyChanged norm now ev).Tracks norm mac
      (Picture.tell client mac p (.topologyChanged ev)) := by
  have hnode : (m.handleTopologyChanged norm now ev).shown? mac = _ := shown?_handleTopologyChanged ev
  have hroute : (m.handleTopologyChanged norm now ev).routes.get? mac = m.routes.get? mac :=
    congrArg (·.get? mac) (routes_handleTopologyChanged ev)
  rw [haddr.norm_remote _ hremote] at hnode
  rw [Picture.tell]
  split_ifs with heq
  · subst heq
    intro q hq
    obtain ⟨p, hp, rfl⟩ := Option.map_eq_some_iff.mp hq
    obtain ⟨⟨shown, hshown, hof⟩, hold⟩ := h p hp
    have hsession (sessionId : Text) : m.sessionOr ev.remoteMac sessionId = p.sessionId := by
      rw [sessionOr, hold]
      rfl
    rw [if_pos rfl, Option.mem_def.mp hshown] at hnode
    exact ⟨⟨_, hnode, hof.online, hsession _, rfl, hof.describedBy, fun _ => ⟨rfl, rfl, rfl⟩⟩, hroute.trans hold⟩
  · rw [if_neg (Ne.symm heq)] at hnode
    exact h.of_record (Prod.ext hnode hroute)

include hmac

theorem Tracks.handleHeartbeat {ev : Heartbeat} (hbridge : ev.bridgeMac ∈ bridges) (h : m.Tracks norm mac p) :
    (m.handleHeartbeat norm now ev).Tracks norm mac p := by
  have hne : mac ≠ norm ev.bridgeMac := by
    rw [haddr.norm_bridge _ hbridge]
    exact haddr.ne _ hmac _ hbridge
  exact h.of_record (Prod.ext (shown?_handleHeartbeat ev hne) (congrArg (·.get? mac) (routes_handleHeartbeat ev)))

/-- The step lemma of the add-on. -/
theorem Tracks.handleEvent {ev : Event} (hclient : client.bridgeMac ∈ bridges) (hev : ev.Proper bridges remotes client)
    (h : m.Tracks norm mac p) : (m.handleEvent norm now client ev).Tracks norm mac (Picture.tell client mac p ev) := by
  cases ev with
  | availability ev => exact h.handleAvailability haddr hev.1 hev.2
  | state ev => exact h.handleState haddr hev.1
  | schemaChanged bridgeMac snapshot => exact h.handleRemoteSnapshot haddr hev.1 hclient hev.2.1
  | metadataChanged identity runtime =>
    have h' : (m.handleRemoteSnapshot norm now client { identity := identity, runtime := runtime }
        runtime.bridgeMac).Tracks norm mac _ := h.handleRemoteSnapshot haddr hev.1 hclient hev.2
    exact h'
  | topologyChanged ev => exact h.handleTopologyChanged haddr hev.1
  | heartbeat ev => exact h.handleHeartbeat haddr hmac hev
  | unknown => exact h

/-- The events of a batch tell of the remote one after the other. -/
theorem Tracks.handleEventBatch {batch : List Event} (hclient : client.bridgeMac ∈ bridges)
    (hbatch : ∀ ev ∈ batch, ev.Proper bridges remotes client) (h : m.Tracks norm mac p) :
    (m.handleEventBatch norm now client batch).Tracks norm mac (batch.foldl (Picture.tell client mac) p) := by
  induction batch generalizing m p with
  | nil => exact h
  | cons ev batch ih =>
    obtain ⟨hev, hbatch⟩ := List.forall_mem_cons.mp hbatch
    exact ih hbatch (h.handleEvent haddr hmac hclient hev)

/-- A full snapshot describes the remotes that it lists, and the others of its bridge are forgotten.
-/
theorem Tracks.handleSnapshot {snapshot : FullSnapshot} (hclient : client.bridgeMac ∈ bridges)
    (hsnapshot : (Frame.snapshot snapshot).Proper bridges remotes client) (h : m.Tracks norm mac p) :
    (m.handleSnapshot norm now client snapshot).Tracks norm mac
      (Picture.keep client mac (.snapshot snapshot) (Picture.tellSnapshot client mac p snapshot)) := by
  obtain ⟨hbridge, hremotes⟩ := hsnapshot
  have hnorm (remote : RemoteSnapshot) (hremote : remote ∈ snapshot.remotes) :
      norm remote.identity.remoteMac = remote.identity.remoteMac := haddr.norm_remote _ (hremotes remote hremote).1
  have hlisted : snapshot.listed? norm mac =
      snapshot.remotes.reverse.find? fun remote => remote.identity.remoteMac = mac :=
    List.find?_congr fun remote hremote => by rw [hnorm remote (List.mem_reverse.mp hremote)]
  have hown : snapshotBridge norm client snapshot = client.bridgeMac := by
    rw [snapshotBridge, hbridge, orElse, if_neg (haddr.bridge_ne_nil _ hclient), haddr.norm_bridge _ hclient]
  have hne : mac ≠ client.bridgeMac := haddr.ne _ hmac _ hclient
  have hrecord : (m.handleSnapshot norm now client snapshot).record mac = _ := record_handleSnapshot
    (fun remote hremote => congrArg norm (hnorm remote hremote))
    (by rwa [hbridge, haddr.norm_bridge _ hclient, haddr.norm_bridge _ hclient])
  rw [hlisted, hown, hbridge, haddr.norm_bridge _ hclient] at hrecord
  cases hfind : snapshot.remotes.reverse.find? fun remote => remote.identity.remoteMac = mac with
  | some remote =>
    have hlists : (Frame.snapshot snapshot).omits mac = false := by
      rw [Frame.omits, hfind]
      rfl
    rw [hfind] at hrecord
    obtain ⟨hnode, hroute⟩ := Prod.mk.inj hrecord
    rw [Picture.keep, hlists, if_neg Bool.false_ne_true, Picture.tellSnapshot, hfind]
    rintro q ⟨⟩
    exact Shows.described rfl hnode hroute
  | none =>
    have homits : (Frame.snapshot snapshot).omits mac = true := by
      rw [Frame.omits, hfind]
      rfl
    rw [hfind] at hrecord
    rw [Picture.keep, homits, if_pos rfl, Picture.tellSnapshot, hfind]
    intro q hq
    obtain ⟨hp, hdescribed⟩ := Option.filter_eq_some_iff.mp hq
    obtain ⟨shown, hshown, hof⟩ := (h q hp).node
    have hstays : ¬ (mac ≠ client.bridgeMac ∧ ∃ shown ∈ m.shown? mac, shown.bridgeMac = client.bridgeMac) := by
      rintro ⟨-, shown', hshown', hgone⟩
      cases (Option.mem_unique hshown hshown' : shown = shown')
      exact of_decide_eq_true hdescribed (hof.describedBy.symm.trans hgone)
    exact h.of_record (hrecord.trans (if_neg hstays)) q hp

/-- What the add-on makes of a frame. -/
theorem Tracks.handleFrame {frame : Frame} (hclient : client.bridgeMac ∈ bridges)
    (hframe : frame.Proper bridges remotes client) (h : m.Tracks norm mac p) :
    (m.handleFrame norm now client frame).Tracks norm mac
      (Picture.keep client mac frame (Picture.tellFrame client mac p frame)) := by
  cases frame with
  | snapshot snapshot => exact h.handleSnapshot haddr hmac hclient hframe
  | events batch => exact h.handleEventBatch haddr hmac hclient hframe

end

end BridgeV2Manager

end EspTree.Integration
