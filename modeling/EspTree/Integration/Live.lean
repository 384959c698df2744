import EspTree.Integration.Picture
import EspTree.Integration.Runtime

/-!
# What the integration shows of one remote

Of a remote the integration has more than the add-on, and it does not take every report (`acceptLive`).  For each
of its functions there is one lemma on `live?`, the part that the reports of bridges make; the tables of entities
have no say in it.  From these it shows what the frames that it has read have told, as the add-on does
(`Tracks.handleFrame`).

A state of another session than the remote is known by is taken, and one of the same session if it
is not older than what was taken last.  Only a state that is taken changes the record of the remote.
An availability that says the remote is online is taken like a state, one that says it is lost only
if it names the bridge and the session that the remote is known by; the place in the tree is taken as
it comes.

`Tracks` has one lemma for each kind of event, with the same hypotheses as in `Integration.Picture`.
So the proofs of the two programs run in parallel, and the place where they differ, a state of a
remote that is offline, is one case in one lemma.
-/

namespace EspTree.Integration

open AddOn.Rename (Text)

/-- What the integration has of a remote by the reports of bridges, less what goes by the clock. -/
structure Live where
  bridgeMac : Text
  sessionId : Text
  lastTxCounter : Nat
  online : Bool
  parentMac : Text
  hopsToBridge : Option Nat
  rssi : Option Int
  uptimeS : Nat
  deriving DecidableEq

def RemoteModel.live (remote : RemoteModel) : Live :=
  { bridgeMac := remote.bridgeMac, sessionId := remote.sessionId, lastTxCounter := remote.lastTxCounter,
    online := remote.online, parentMac := remote.parentMac, hopsToBridge := remote.hopsToBridge, rssi := remote.rssi,
    uptimeS := remote.uptimeS }

/-- It shows the picture. -/
structure Live.Of (norm : Text → Text) (p : Picture) (live : Live) : Prop where
  bridge : live.bridgeMac = p.bridgeMac
  session : live.sessionId = p.sessionId
  counter : live.lastTxCounter = p.txCounter
  online : live.online = p.online
  parent : live.parentMac = norm p.parentMac
  link : p.online = true → live.hopsToBridge = some p.hops ∧ live.rssi = some p.rssi ∧ live.uptimeS = p.uptimeS

namespace EspTreeRuntime

variable {norm : Text → Text} {rt : EspTreeRuntime} {now : Nat} {mac : Text}

def live? (rt : EspTreeRuntime) (mac : Text) : Option Live := (rt.remotes.get? mac).map RemoteModel.live

@[simp] theorem live_touchLastSeen (remote : RemoteModel) (bridgeMac : Text) :
    (rt.touchLastSeen norm now remote bridgeMac).live = remote.live := by
  simp only [touchLastSeen]
  split_ifs
  · rfl
  · rfl

/-- A remote that is stored is shown under its own address. -/
theorem live?_setRemote (k : Text) (remote : RemoteModel) : (rt.setRemote k remote).live? mac =
    if mac = k then some remote.live else rt.live? mac := by
  rw [live?, setRemote, Dict.get?_set, apply_ite (Option.map RemoteModel.live)]
  rfl

/-! ## The tables of entities -/

/-- A state is shown at its entity, and not in the record of the remote. -/
theorem remotes_applyState (remoteMac : Text) (state : EntityState) :
    (rt.applyState norm remoteMac state).remotes = rt.remotes := by
  unfold applyState
  dsimp only
  split
  · rfl
  · rfl

theorem remotes_foldl_applyState (remoteMac : Text) (states : List EntityState) :
    (states.foldl (fun rt state => rt.applyState norm remoteMac state) rt).remotes = rt.remotes := by
  induction states generalizing rt with
  | nil => rfl
  | cons state states ih => exact ih.trans (remotes_applyState remoteMac state)

/-- A descriptor changes nothing of a remote that is known. -/
theorem live?_mergeDescriptor {remoteMac : Text} (hknown : (rt.live? remoteMac).isSome = true) (desc : EntityDescriptor) :
    (rt.mergeDescriptor remoteMac desc).live? mac = rt.live? mac := by
  unfold mergeDescriptor
  dsimp only
  by_cases hempty : desc.objectId = []
  · rw [if_pos hempty]
  · rw [if_neg hempty]
    split
    · rfl
    · refine (live?_setRemote remoteMac _).trans ?_
      split_ifs with hmac
      · subst hmac
        obtain ⟨remote, hremote⟩ := Option.isSome_iff_exists.mp ((Option.isSome_map ..).symm.trans hknown)
        rw [live?, remoteFor, hremote]
        rfl
      · rfl

theorem live?_foldl_mergeDescriptor {remoteMac : Text} (hknown : (rt.live? remoteMac).isSome = true)
    (descs : List EntityDescriptor) :
    (descs.foldl (fun rt desc => rt.mergeDescriptor remoteMac desc) rt).live? mac = rt.live? mac := by
  induction descs generalizing rt with
  | nil => rfl
  | cons desc descs ih =>
    have hknown' : ((rt.mergeDescriptor remoteMac desc).live? remoteMac).isSome = true := by
      rwa [live?_mergeDescriptor hknown]
    exact (ih hknown').trans (live?_mergeDescriptor hknown desc)

/-! ## Reports -/

/-- What is shown of a remote that has been described. -/
def describedLive (norm : Text → Text) (bridgeMac : Text) (runtime : RemoteRuntime) : Live :=
  { bridgeMac := bridgeMac, sessionId := runtime.sessionId, lastTxCounter := runtime.lastTxCounter,
    online := runtime.online, parentMac := norm runtime.parentMac, hopsToBridge := some runtime.hopsToBridge,
    rssi := some runtime.rssi, uptimeS := runtime.uptimeS }

/-- A snapshot of a remote describes it, whatever was known. -/
theorem live?_mergeRemoteSnapshot (snapshot : RemoteSnapshot) (bridgeMac : Text) (observedMs : Nat) :
    (rt.mergeRemoteSnapshot norm now snapshot bridgeMac observedMs).live? mac =
      if mac = norm snapshot.identity.remoteMac then
        some (describedLive norm (norm (orElse snapshot.runtime.bridgeMac bridgeMac)) snapshot.runtime)
      else rt.live? mac := by
  unfold mergeRemoteSnapshot
  dsimp only
  rw [live?, remotes_foldl_applyState]
  refine (live?_foldl_mergeDescriptor ?_ _).trans ?_
  · rw [live?_setRemote, if_pos rfl]
    rfl
  · exact live?_setRemote _ _

/-- What the last entry of a snapshot says of a remote. -/
theorem live?_handleSnapshot (snapshot : FullSnapshot) : (rt.handleSnapshot norm now snapshot).live? mac =
    ((snapshot.listed? norm mac).map fun remote => describedLive norm
      (norm (orElse remote.runtime.bridgeMac (norm snapshot.bridgeMac))) remote.runtime).or (rt.live? mac) := by
  unfold handleSnapshot
  dsimp only
  refine (Dict.view_foldl live? (fun remote : RemoteSnapshot => norm remote.identity.remoteMac)
    (fun remote => describedLive norm (norm (orElse remote.runtime.bridgeMac (norm snapshot.bridgeMac)))
      remote.runtime)
    (fun _ _ _ => live?_mergeRemoteSnapshot _ _ _) _ _ _).trans ?_
  rfl

theorem live?_handleMetadataChanged (identity : RemoteIdentity) (runtime : RemoteRuntime) :
    (rt.handleMetadataChanged norm now identity runtime).live? mac =
      if mac = norm identity.remoteMac then some (describedLive norm (norm runtime.bridgeMac) runtime)
      else rt.live? mac := by
  unfold handleMetadataChanged
  exact live?_setRemote _ _

/-- A state that is taken. -/
def stateLive (norm : Text → Text) (ev : StateEvent) (live : Live) : Live :=
  { live with
    bridgeMac := norm ev.bridgeMac, sessionId := ev.sessionId, lastTxCounter := ev.txCounter, online := true }

/-- A state counts for its own remote, if `_accept_live` takes it. -/
theorem live?_handleState (ev : StateEvent) : (rt.handleState norm now ev).live? mac =
    if mac = norm ev.remoteMac then
      (rt.remotes.get? mac).map fun remote =>
        if acceptLive remote (norm ev.bridgeMac) ev.sessionId ev.txCounter ev.observedUnixMs then
          stateLive norm ev remote.live
        else remote.live
    else rt.live? mac := by
  unfold handleState
  dsimp only
  rw [live?, remotes_foldl_applyState]
  split
  next hremote =>
    split_ifs with hmac
    · subst hmac
      rw [hremote]
      rfl
    · rfl
  next remote hremote =>
    by_cases haccept : acceptLive remote (norm ev.bridgeMac) ev.sessionId ev.txCounter ev.observedUnixMs = true
    · rw [if_pos haccept]
      refine (live?_setRemote _ _).trans ?_
      split_ifs with hmac
      · subst hmac
        rw [hremote, live_touchLastSeen, Option.map_some, if_pos haccept]
        rfl
      · rfl
    · rw [if_neg haccept]
      split_ifs with hmac
      · subst hmac
        rw [hremote, Option.map_some, Option.map_some, if_neg haccept]
      · rfl

/-- What an availability report makes of a remote. -/
def availableLive (norm : Text → Text) (ev : Availability) (remote : RemoteModel) : Live :=
  let bridgeMac := norm ev.bridgeMac
  if ev.online then
    if acceptLive remote bridgeMac ev.sessionId ev.txCounter ev.observedUnixMs then
      { remote.live with
        bridgeMac := bridgeMac, sessionId := ev.sessionId, lastTxCounter := ev.txCounter, online := true,
        rssi := some ev.rssi, hopsToBridge := some ev.hopsToBridge, uptimeS := ev.uptimeS }
    else remote.live
  else if remote.bridgeMac = bridgeMac ∧ remote.sessionId = ev.sessionId then { remote.live with online := false }
  else remote.live

/-- An availability counts for its own remote, known or not.  That it is online is taken as
`_accept_live` says, that it is lost only from the bridge and the session that the remote is known
by. -/
theorem live?_handleAvailability (ev : Availability) : (rt.handleAvailability norm now ev).live? mac =
    if mac = norm ev.remoteMac then some (availableLive norm ev (rt.remoteFor mac)) else rt.live? mac := by
  unfold handleAvailability
  refine (live?_setRemote _ _).trans ?_
  by_cases hmac : mac = norm ev.remoteMac
  · subst hmac
    rw [if_pos rfl, if_pos rfl]
    unfold availableLive
    dsimp only
    rw [apply_ite RemoteModel.live, apply_ite RemoteModel.live, apply_ite RemoteModel.live, live_touchLastSeen]
    rfl
  · rw [if_neg hmac, if_neg hmac]

/-- What a topology report makes of a remote that is known. -/
def topologyLive (norm : Text → Text) (ev : TopologyChanged) (live : Live) : Live :=
  { live with
    parentMac := norm ev.parentMac, hopsToBridge := some ev.hopsToBridge, rssi := some ev.rssi, uptimeS := ev.uptimeS }

/-- A place in the tree is taken as it comes. -/
theorem live?_handleTopologyChanged (ev : TopologyChanged) : (rt.handleTopologyChanged norm now ev).live? mac =
    if mac = norm ev.remoteMac then (rt.live? mac).map (topologyLive norm ev) else rt.live? mac := by
  unfold handleTopologyChanged
  dsimp only
  split
  next hremote =>
    split_ifs with hmac
    · subst hmac
      rw [live?, hremote]
      rfl
    · rfl
  next remote hremote =>
    rw [live?_setRemote, apply_ite RemoteModel.live, live_touchLastSeen, ite_self]
    split_ifs with hmac
    · subst hmac
      rw [live?, hremote]
      rfl
    · rfl

theorem live?_handleLastSeen (rls : Text × Nat) : (rt.handleLastSeen norm now rls).live? mac = rt.live? mac := by
  unfold handleLastSeen
  split
  · rfl
  next remote hremote =>
    rw [live?_setRemote]
    split_ifs with hmac
    · subst hmac
      rw [live?, hremote]
      rfl
    · rfl

/-- A heartbeat of a bridge only says when its remotes were last heard. -/
theorem live?_handleHeartbeat (ev : Heartbeat) : (rt.handleHeartbeat norm now ev).live? mac = rt.live? mac := by
  have hfold (rt : EspTreeRuntime) (l : List (Text × Nat)) :
      (l.foldl (fun rt rls => rt.handleLastSeen norm now rls) rt).live? mac = rt.live? mac := by
    induction l generalizing rt with
    | nil => rfl
    | cons rls l ih => exact (ih _).trans (live?_handleLastSeen rls)
  exact hfold _ _

/-! ## The picture -/

variable {client : Client} {p : Option Picture}

/-- The integration shows the picture of a remote. -/
def Shows (norm : Text → Text) (rt : EspTreeRuntime) (mac : Text) (p : Picture) : Prop :=
  ∃ live ∈ rt.live? mac, live.Of norm p

/-- The integration shows what has been told, if the reports agree. -/
def Tracks (norm : Text → Text) (rt : EspTreeRuntime) (mac : Text) (p : Option Picture) : Prop :=
  ∀ q ∈ p, rt.Shows norm mac q

/-- What is shown of the remote alone decides whether the picture is tracked. -/
theorem Tracks.of_live {rt' : EspTreeRuntime} (h : rt.Tracks norm mac p) (hlive : rt'.live? mac = rt.live? mac) :
    rt'.Tracks norm mac p :=
  fun q hq => (h q hq).imp fun _ hshows => ⟨hlive.symm ▸ hshows.1, hshows.2⟩

/-- A remote that was described is shown as it was described. -/
theorem Shows.described {bridgeMac : Text} {runtime : RemoteRuntime} (hbridge : bridgeMac = client.bridgeMac)
    (hlive : rt.live? mac = some (describedLive norm bridgeMac runtime)) :
    rt.Shows norm mac (Picture.described client runtime) :=
  ⟨_, hlive, hbridge, rfl, rfl, rfl, rfl, fun _ => ⟨rfl, rfl, rfl⟩⟩

/-- The integration takes the newest report. -/
theorem acceptLive_of_newest {remote : RemoteModel} {p : Picture} (hof : remote.live.Of norm p)
    {bridgeMac sessionId : Text} {txCounter : Nat} (hnewest : p.Newest bridgeMac sessionId txCounter)
    (observedMs : Nat) : acceptLive remote bridgeMac sessionId txCounter observedMs = true := by
  have hbridge : remote.bridgeMac = p.bridgeMac := hof.bridge
  have hsession : remote.sessionId = p.sessionId := hof.session
  have hcounter : remote.lastTxCounter = p.txCounter := hof.counter
  rw [acceptLive, hbridge, hsession, hcounter]
  by_cases hnew : p.sessionId = [] ∨ p.sessionId ≠ sessionId
  · exact if_pos hnew
  · rw [if_neg hnew]
    have hlater := hnewest.resolve_left (mt Or.inl hnew) |>.resolve_left (mt Or.inr hnew)
    split_ifs at hlater ⊢ with hsame
    · exact decide_eq_true hlater
    · rfl

section

variable {bridges remotes : Set Text} (haddr : Addressing norm bridges remotes)

include haddr

/-- After a report that agrees with the picture the integration shows the new picture; the cases are
those of `Picture.tell`. -/
theorem Tracks.handleAvailability {ev : Availability} (hremote : ev.remoteMac ∈ remotes)
    (hbridge : ev.bridgeMac ∈ bridges) (h : rt.Tracks norm mac p) :
    (rt.handleAvailability norm now ev).Tracks norm mac (Picture.tell client mac p (.availability ev)) := by
  have hlive : (rt.handleAvailability norm now ev).live? mac = _ := live?_handleAvailability ev
  rw [haddr.norm_remote _ hremote] at hlive
  rw [Picture.tell]
  split_ifs with heq
  · subst heq
    intro q hq
    obtain ⟨p, hp, hq⟩ := Option.bind_eq_some_iff.mp hq
    obtain ⟨live, hshown, hof⟩ := h p hp
    obtain ⟨remote, hremote, rfl⟩ := Option.map_eq_some_iff.mp hshown
    have hfor : rt.remoteFor ev.remoteMac = remote := by rw [remoteFor, hremote, Option.getD_some]
    have hold : remote.bridgeMac = p.bridgeMac ∧ remote.sessionId = p.sessionId := ⟨hof.bridge, hof.session⟩
    rw [if_pos rfl, hfor, availableLive, haddr.norm_bridge _ hbridge] at hlive
    dsimp only at hlive
    rw [Picture.available] at hq
    split_ifs at hq with honline hnewest hsame
    · cases Option.some.inj hq
      rw [if_pos honline, if_pos (acceptLive_of_newest hof hnewest _)] at hlive
      exact ⟨_, hlive, rfl, rfl, rfl, rfl, hof.parent, fun _ => ⟨rfl, rfl, rfl⟩⟩
    · cases Option.some.inj hq
      rw [if_neg honline, hold.1, hold.2, if_pos hsame] at hlive
      exact ⟨_, hlive, hof.bridge, hof.session, hof.counter, rfl, hof.parent, fun h => absurd h Bool.false_ne_true⟩
  · exact h.of_live (hlive.trans (if_neg (Ne.symm heq)))

/-- A state that agrees with the picture is newer than the last one of its session, so that it is
taken. -/
theorem Tracks.handleState {ev : StateEvent} (hremote : ev.remoteMac ∈ remotes) (hbridge : ev.bridgeMac ∈ bridges)
    (h : rt.Tracks norm mac p) : (rt.handleState norm now ev).Tracks norm mac
      (Picture.tell client mac p (.state ev)) := by
  have hlive : (rt.handleState norm now ev).live? mac = _ := live?_handleState ev
  rw [haddr.norm_remote _ hremote, haddr.norm_bridge _ hbridge] at hlive
  rw [Picture.tell]
  split_ifs with heq
  · subst heq
    intro q hq
    obtain ⟨p, hp, hq⟩ := Option.bind_eq_some_iff.mp hq
    obtain ⟨live, hshown, hof⟩ := h p hp
    obtain ⟨remote, hremote, rfl⟩ := Option.map_eq_some_iff.mp hshown
    rw [if_pos rfl, hremote, Option.map_some] at hlive
    rw [Picture.state, Option.ite_none_right_eq_some] at hq
    obtain ⟨⟨honline, hsame⟩, hq⟩ := hq
    cases Option.some.inj hq
    by_cases hnew : p.sessionId = [] ∨ p.sessionId ≠ ev.sessionId
    · -- the remote has come back in a new session
      have hnewest : p.Newest ev.bridgeMac ev.sessionId ev.txCounter := hnew.imp id Or.inl
      rw [if_pos (acceptLive_of_newest hof hnewest _), stateLive, haddr.norm_bridge _ hbridge] at hlive
      exact ⟨_, hlive, hsame.symm, rfl, (if_pos hnew).symm, honline.symm, hof.parent, hof.link⟩
    · obtain ⟨hsome, hsession⟩ := not_or.mp hnew
      rw [not_not] at hsession
      by_cases hlater : p.txCounter ≤ ev.txCounter
      · have hnewest : p.Newest ev.bridgeMac ev.sessionId ev.txCounter := .inr (.inr ((if_pos hsame).symm ▸ hlater))
        rw [if_pos (acceptLive_of_newest hof hnewest _), stateLive, haddr.norm_bridge _ hbridge] at hlive
        refine ⟨_, hlive, hsame.symm, rfl, ?_, honline.symm, hof.parent, hof.link⟩
        exact ((if_neg hnew).trans (max_eq_right hlater)).symm
      · -- an older state of the same session is left
        have hrefused : ¬ acceptLive remote ev.bridgeMac ev.sessionId ev.txCounter ev.observedUnixMs = true := by
          have hold : remote.bridgeMac = p.bridgeMac := hof.bridge
          have hold' : remote.sessionId = p.sessionId := hof.session
          have hcounter : remote.lastTxCounter = p.txCounter := hof.counter
          rw [acceptLive, hold, hold', hcounter, if_neg hnew, if_pos hsame]
          exact fun h => hlater (of_decide_eq_true h)
        rw [if_neg hrefused] at hlive
        refine ⟨_, hlive, hof.bridge, hof.session.trans hsession, ?_, hof.online, hof.parent, hof.link⟩
        exact hof.counter.trans ((if_neg hnew).trans (max_eq_left (le_of_not_ge hlater))).symm
  · exact h.of_live (hlive.trans (if_neg (Ne.symm heq)))

theorem Tracks.mergeRemoteSnapshot {snapshot : RemoteSnapshot} {bridgeMac : Text} {observedMs : Nat}
    (hremote : snapshot.identity.remoteMac ∈ remotes) (hclient : client.bridgeMac ∈ bridges)
    (hbridge : bridgeMac = client.bridgeMac)
    (hown : snapshot.runtime.bridgeMac = [] ∨ snapshot.runtime.bridgeMac = client.bridgeMac)
    (h : rt.Tracks norm mac p) : (rt.mergeRemoteSnapshot norm now snapshot bridgeMac observedMs).Tracks norm mac
      (if snapshot.identity.remoteMac = mac then some (Picture.described client snapshot.runtime) else p) := by
  subst hbridge
  have hlive : (rt.mergeRemoteSnapshot norm now snapshot client.bridgeMac observedMs).live? mac = _ :=
    live?_mergeRemoteSnapshot _ _ _
  rw [haddr.norm_remote _ hremote, orElse_own hown, haddr.norm_bridge _ hclient] at hlive
  split_ifs with heq
  · subst heq
    rw [if_pos rfl] at hlive
    rintro q ⟨⟩
    exact Shows.described rfl hlive
  · exact h.of_live (hlive.trans (if_neg (Ne.symm heq)))

/-- What describes the remote makes a new picture, as a snapshot does. -/
theorem Tracks.handleMetadataChanged {identity : RemoteIdentity} {runtime : RemoteRuntime}
    (hremote : identity.remoteMac ∈ remotes) (hclient : client.bridgeMac ∈ bridges)
    (hbridge : runtime.bridgeMac = client.bridgeMac) (h : rt.Tracks norm mac p) :
    (rt.handleMetadataChanged norm now identity runtime).Tracks norm mac
      (Picture.tell client mac p (.metadataChanged identity runtime)) := by
  have hlive : (rt.handleMetadataChanged norm now identity runtime).live? mac = _ := live?_handleMetadataChanged _ _
  rw [haddr.norm_remote _ hremote, hbridge, haddr.norm_bridge _ hclient] at hlive
  rw [Picture.tell]
  split_ifs with heq
  · subst heq
    rw [if_pos rfl] at hlive
    rintro q ⟨⟩
    exact Shows.described rfl hlive
  · exact h.of_live (hlive.trans (if_neg (Ne.symm heq)))

/-- A place in the tree changes only what is shown of it. -/
theorem Tracks.handleTopologyChanged {ev : TopologyChanged} (hremote : ev.remoteMac ∈ remotes)
    (h : rt.Tracks norm mac p) : (rt.handleTopologyChanged norm now ev).Tracks norm mac
      (Picture.tell client mac p (.topologyChanged ev)) := by
  have hlive : (rt.handleTopologyChanged norm now ev).live? mac = _ := live?_handleTopologyChanged ev
  rw [haddr.norm_remote _ hremote] at hlive
  rw [Picture.tell]
  split_ifs with heq
  · subst heq
    intro q hq
    obtain ⟨p, hp, rfl⟩ := Option.map_eq_some_iff.mp hq
    obtain ⟨live, hshown, hof⟩ := h p hp
    rw [if_pos rfl, Option.mem_def.mp hshown] at hlive
    exact ⟨_, hlive, hof.bridge, hof.session, hof.counter, hof.online, rfl, fun _ => ⟨rfl, rfl, rfl⟩⟩
  · exact h.of_live (hlive.trans (if_neg (Ne.symm heq)))

/-- The step lemma of the integration. -/
theorem Tracks.handleEvent {ev : Event} (hclient : client.bridgeMac ∈ bridges) (hev : ev.Proper bridges remotes client)
    (h : rt.Tracks norm mac p) : (rt.handleEvent norm now ev).Tracks norm mac (Picture.tell client mac p ev) := by
  cases ev with
  | availability ev => exact h.handleAvailability haddr hev.1 hev.2
  | state ev => exact h.handleState haddr hev.1 hev.2
  | schemaChanged bridgeMac snapshot =>
    obtain ⟨hremote, rfl, hown⟩ := hev
    exact h.mergeRemoteSnapshot haddr hremote hclient (haddr.norm_bridge _ hclient) hown
  | metadataChanged identity runtime => exact h.handleMetadataChanged haddr hev.1 hclient hev.2
  | topologyChanged ev => exact h.handleTopologyChanged haddr hev.1
  | heartbeat ev => exact h.of_live (live?_handleHeartbeat ev)
  | unknown => exact h

/-- The events of a batch tell of the remote one after the other. -/
theorem Tracks.handleEvents {batch : List Event} (hclient : client.bridgeMac ∈ bridges)
    (hbatch : ∀ ev ∈ batch, ev.Proper bridges remotes client) (h : rt.Tracks norm mac p) :
    (rt.handleEvents norm now batch).Tracks norm mac (batch.foldl (Picture.tell client mac) p) := by
  induction batch generalizing rt p with
  | nil => exact h
  | cons ev batch ih =>
    obtain ⟨hev, hbatch⟩ := List.forall_mem_cons.mp hbatch
    exact ih hbatch (h.handleEvent haddr hclient hev)

/-- Of a full snapshot the last entry for the remote counts. -/
theorem Tracks.handleSnapshot {snapshot : FullSnapshot} (hclient : client.bridgeMac ∈ bridges)
    (hsnapshot : (Frame.snapshot snapshot).Proper bridges remotes client) (h : rt.Tracks norm mac p) :
    (rt.handleSnapshot norm now snapshot).Tracks norm mac (Picture.tellSnapshot client mac p snapshot) := by
  obtain ⟨hbridge, hremotes⟩ := hsnapshot
  have hlisted : snapshot.listed? norm mac =
      snapshot.remotes.reverse.find? fun remote => remote.identity.remoteMac = mac :=
    List.find?_congr fun remote hremote => by
      rw [haddr.norm_remote _ (hremotes remote (List.mem_reverse.mp hremote)).1]
  have hlive : (rt.handleSnapshot norm now snapshot).live? mac = _ := live?_handleSnapshot snapshot
  rw [hlisted, hbridge, haddr.norm_bridge _ hclient] at hlive
  unfold Picture.tellSnapshot
  cases hfind : snapshot.remotes.reverse.find? fun remote => remote.identity.remoteMac = mac with
  | some remote =>
    have hown := (hremotes remote (List.mem_reverse.mp (List.mem_of_find?_eq_some hfind))).2
    rw [hfind, Option.map_some, Option.some_or, orElse_own hown, haddr.norm_bridge _ hclient] at hlive
    rintro q ⟨⟩
    exact Shows.described rfl hlive
  | none =>
    rw [hfind, Option.map_none, Option.none_or] at hlive
    exact h.of_live hlive

/-- What the integration makes of a frame. -/
theorem Tracks.handleFrame {frame : Frame} (hclient : client.bridgeMac ∈ bridges)
    (hframe : frame.Proper bridges remotes client) (h : rt.Tracks norm mac p) :
    (rt.handleFrame norm now frame).Tracks norm mac (Picture.tellFrame client mac p frame) := by
  cases frame with
  | snapshot snapshot => exact h.handleSnapshot haddr hclient hframe
  | events batch => exact h.handleEvents haddr hclient hframe

end

/-! ## Where the two part -/

/-- A state of a remote that is offline: the add-on leaves it offline, and to the integration it is back.  So the
picture has nothing to say after it. -/
theorem online_handleState_of_offline {norm' : Text → Text} {m : BridgeV2Manager} {now' : Nat}
    {bridges remotes : Set Text} (haddr : Addressing norm bridges remotes) (haddr' : Addressing norm' bridges remotes)
    {p : Picture} (hoffline : p.online = false) (haddon : m.Shows norm' mac p) (hshows : rt.Shows norm mac p)
    {ev : StateEvent} (hremote : ev.remoteMac = mac) (hmac : mac ∈ remotes) (hbridge : ev.bridgeMac ∈ bridges)
    (hnewest : p.Newest ev.bridgeMac ev.sessionId ev.txCounter) :
    (∃ shown ∈ (m.handleState norm' now' ev).shown? mac, shown.online = false) ∧
      ∃ live ∈ (rt.handleState norm now ev).live? mac, live.online = true := by
  subst hremote
  constructor
  · obtain ⟨shown, hshown, hof⟩ := haddon.node
    have hnode : (m.handleState norm' now' ev).shown? ev.remoteMac = _ := BridgeV2Manager.shown?_handleState ev
    rw [haddr'.norm_remote _ hmac, if_pos rfl, Option.mem_def.mp hshown, Option.map_some] at hnode
    exact ⟨_, hnode, hof.online.trans hoffline⟩
  · obtain ⟨live, hlive, hof⟩ := hshows
    obtain ⟨remote, hremote, rfl⟩ := Option.map_eq_some_iff.mp hlive
    have hnew : (rt.handleState norm now ev).live? ev.remoteMac = _ := live?_handleState ev
    rw [haddr.norm_remote _ hmac, haddr.norm_bridge _ hbridge, if_pos rfl, hremote, Option.map_some,
      if_pos (acceptLive_of_newest hof hnewest _)] at hnew
    exact ⟨_, hnew, rfl⟩

end EspTreeRuntime

end EspTree.Integration
