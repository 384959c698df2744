import EspTree.Integration.Manager
import Mathlib.Data.List.Find

/-!
# What the add-on knows of one remote

The node and the route of a remote are its record in the manager.  For each function of the manager there is
one lemma that says what it does to the record: a report changes the record of its own remote and no other one
(`record_handleAvailability` and so on), a snapshot those that it lists and those that it should have listed
(`record_handleSnapshot`), and the end of a connection those of its bridge (`record_handleDisconnect`).

The lemmas come in pairs, one for the node and one for the route.  `shown?` is the part of a node
that the reports of bridges make, so that the functions which only touch when it was last seen drop
out.

A snapshot is the only frame that changes several records.  There the nodes are collected first, with
the bridge itself among them, and then replace those that were there; the last entry for an address
counts, and what the snapshot does not list of the bridge's remotes goes.
-/

namespace EspTree.Integration

open AddOn.Rename (Text)

/-- What a node says of its remote, less what goes by the clock. -/
structure Shown where
  online : Bool
  sessionId : Text
  parentMac : Option Text
  hops : Nat
  rssi : Int
  uptimeS : Nat
  isBridge : Bool
  bridgeMac : Text
  deriving DecidableEq

def Node.shown (node : Node) : Shown :=
  { online := node.online, sessionId := node.sessionId, parentMac := node.parentMac, hops := node.hops,
    rssi := node.rssi, uptimeS := node.uptimeS, isBridge := node.isBridge, bridgeMac := node.bridgeMac }

/-- A remote whose bridge has gone. -/
def Shown.lost (shown : Shown) (sessionId : Text) : Shown :=
  { shown with online := false, sessionId := sessionId, hops := 0, rssi := 0, uptimeS := 0 }

namespace BridgeV2Manager

variable {norm : Text → Text} {m : BridgeV2Manager} {now : Nat} {client : Client} {mac : Text}

def shown? (m : BridgeV2Manager) (mac : Text) : Option Shown := (m.topologyNodes.get? mac).map Node.shown

/-- The record of a remote. -/
def record (m : BridgeV2Manager) (mac : Text) : Option Shown × Option RemoteRoute := (m.shown? mac, m.routes.get? mac)

@[simp] theorem shown_touchLastSeen (node : Node) (bridgeMac : Text) :
    (m.touchLastSeen norm now node bridgeMac).shown = node.shown := by
  simp only [touchLastSeen]
  split_ifs
  · rfl
  · rfl

@[simp] theorem shown_carryOver (existing node : Node) : (carryOver existing node).shown = node.shown := rfl

/-- A node is shown under its own key. -/
theorem shown?_set (nodes : Dict Text Node) (k : Text) (node : Node) : ((nodes.set k node).get? mac).map Node.shown =
    if mac = k then some node.shown else (nodes.get? mac).map Node.shown := by
  rw [Dict.get?_set, apply_ite (Option.map Node.shown)]
  rfl

/-! ## One report -/

/-- What an availability report makes of what is shown. -/
def availableShown (bridgeMac : Text) (ev : Availability) : Option Shown → Option Shown
  | some shown => some { shown with
      online := ev.online, sessionId := ev.sessionId, hops := ev.hopsToBridge, rssi := ev.rssi, uptimeS := ev.uptimeS }
  | none =>
    if ev.online then
      some { online := true, sessionId := ev.sessionId, parentMac := none, hops := ev.hopsToBridge, rssi := ev.rssi,
             uptimeS := ev.uptimeS, isBridge := false, bridgeMac := bridgeMac }
    else none

/-- The route of a remote that has been reported, if `route` was the one before. -/
def availableRoute (bridgeUuid bridgeMac remoteMac sessionId : Text) (route : Option RemoteRoute) : RemoteRoute :=
  { bridgeUuid := bridgeUuid, bridgeMac := bridgeMac, remoteMac := (route.map (·.remoteMac)).getD remoteMac,
    sessionId := sessionId }

/-- An availability makes a new route, by the client that has reported it. -/
theorem routes_handleAvailability (ev : Availability) : (m.handleAvailability norm now client ev).routes =
    m.routes.set (norm ev.remoteMac) (availableRoute client.bridgeUuid (norm (orElse ev.bridgeMac client.bridgeMac))
      (norm ev.remoteMac) ev.sessionId (m.routes.get? (norm ev.remoteMac))) := by
  have hroute : ∀ route : Option RemoteRoute, (route.getD (routeFor client
      (norm (orElse ev.bridgeMac client.bridgeMac)) (norm ev.remoteMac) [])).remoteMac =
        (route.map (·.remoteMac)).getD (norm ev.remoteMac) := fun route => by
    cases route with
    | none => rfl
    | some ρ => rfl
  unfold handleAvailability
  dsimp only
  rw [hroute]
  split
  · rfl
  · split_ifs
    · rfl
    · rfl

/-- It shows the remote as it says. -/
theorem shown?_handleAvailability (ev : Availability) : (m.handleAvailability norm now client ev).shown? mac =
    if mac = norm ev.remoteMac then
      availableShown (norm (orElse ev.bridgeMac client.bridgeMac)) ev (m.shown? mac)
    else m.shown? mac := by
  unfold handleAvailability
  dsimp only
  by_cases hmac : mac = norm ev.remoteMac
  · subst hmac
    rw [if_pos rfl]
    split
    next node hnode =>
      have hshown : m.shown? (norm ev.remoteMac) = some node.shown := by rw [shown?, hnode, Option.map_some]
      rw [hshown]
      refine (shown?_set _ _ _).trans ?_
      rw [if_pos rfl, apply_ite Node.shown, shown_touchLastSeen, ite_self]
      rfl
    next hnode =>
      have hshown : m.shown? (norm ev.remoteMac) = none := by rw [shown?, hnode, Option.map_none]
      rw [hshown, availableShown]
      split_ifs
      · refine (shown?_set _ _ _).trans ?_
        rw [if_pos rfl]
        rfl
      · exact hshown
  · rw [if_neg hmac]
    split
    · exact (shown?_set _ _ _).trans (if_neg hmac)
    · split_ifs
      · exact (shown?_set _ _ _).trans (if_neg hmac)
      · rfl

theorem topologyNodes_setSession (remoteMac sessionId : Text) :
    (m.setSession remoteMac sessionId).topologyNodes = m.topologyNodes := by
  unfold setSession
  split
  · rfl
  · rfl

/-- The session that a state names is put into the route, if there is one. -/
theorem routes_setSession (remoteMac sessionId : Text) : (m.setSession remoteMac sessionId).routes.get? mac =
    if mac = remoteMac then (m.routes.get? mac).map fun ρ => { ρ with sessionId := sessionId }
    else m.routes.get? mac := by
  unfold setSession
  split
  next hroute =>
    split_ifs with hmac
    · subst hmac
      rw [hroute]
      rfl
    · rfl
  next ρ hroute =>
    refine Dict.get?_set.trans ?_
    split_ifs with hmac
    · subst hmac
      rw [hroute]
      rfl
    · rfl

theorem routes_handleState (ev : StateEvent) :
    (m.handleState norm now ev).routes = (m.setSession (norm ev.remoteMac) ev.sessionId).routes := by
  unfold handleState
  dsimp only
  split
  · rfl
  · split_ifs
    · rfl
    · rfl

/-- A state changes the session that is shown, also of a remote that is offline. -/
theorem shown?_handleState (ev : StateEvent) : (m.handleState norm now ev).shown? mac =
    if mac = norm ev.remoteMac then
      (m.shown? mac).map fun shown => { shown with
        sessionId := if shown.online ∧ (m.routes.get? mac).isSome then ev.sessionId else shown.sessionId }
    else m.shown? mac := by
  have hframe := topologyNodes_setSession (m := m) (norm ev.remoteMac) ev.sessionId
  have hsame : (m.setSession (norm ev.remoteMac) ev.sessionId).shown? mac = m.shown? mac := by
    rw [shown?, hframe, shown?]
  have hsession (sessionId : Text) : (m.setSession (norm ev.remoteMac) ev.sessionId).sessionOr (norm ev.remoteMac)
      sessionId = if (m.routes.get? (norm ev.remoteMac)).isSome then ev.sessionId else sessionId := by
    rw [sessionOr, routes_setSession, if_pos rfl]
    cases m.routes.get? (norm ev.remoteMac) with
    | none => rfl
    | some ρ => rfl
  unfold handleState
  dsimp only
  rw [hframe]
  split
  next hnode =>
    rw [hsame]
    split_ifs with hmac
    · subst hmac
      rw [shown?, hnode]
      rfl
    · rfl
  next node hnode =>
    by_cases honline : node.online = true
    · rw [if_pos honline]
      refine (shown?_set _ _ _).trans ?_
      split_ifs with hmac
      · subst hmac
        rw [shown?, hnode, shown_touchLastSeen, hsession]
        have hshown : (node.shown.online = true ∧ (m.routes.get? (norm ev.remoteMac)).isSome = true) ↔
            (m.routes.get? (norm ev.remoteMac)).isSome = true := and_iff_right honline
        rw [Option.map_some, Option.map_some, if_congr hshown rfl rfl]
        rfl
      · rfl
    · rw [if_neg honline, hsame]
      split_ifs with hmac
      · subst hmac
        rw [shown?, hnode]
        have hshown : ¬ (node.shown.online = true ∧ (m.routes.get? (norm ev.remoteMac)).isSome = true) :=
          fun h => honline h.1
        rw [Option.map_some, Option.map_some, if_neg hshown]
      · rfl

/-- What a topology report makes of what is shown; `sessionOr` looks at the route. -/
def topologyShown (norm : Text → Text) (sessionOr : Text → Text) (ev : TopologyChanged) : Option Shown → Shown
  | some shown => { shown with
      parentMac := some (norm ev.parentMac), hops := ev.hopsToBridge, rssi := ev.rssi, uptimeS := ev.uptimeS,
      sessionId := sessionOr shown.sessionId }
  | none =>
    { online := true, sessionId := sessionOr [], parentMac := some (norm ev.parentMac), hops := ev.hopsToBridge,
      rssi := ev.rssi, uptimeS := ev.uptimeS, isBridge := false, bridgeMac := norm ev.bridgeMac }

theorem routes_handleTopologyChanged (ev : TopologyChanged) :
    (m.handleTopologyChanged norm now ev).routes = m.routes := by
  unfold handleTopologyChanged
  dsimp only
  split
  · rfl
  · rfl

/-- A place in the tree is shown also of a remote that is not known otherwise. -/
theorem shown?_handleTopologyChanged (ev : TopologyChanged) : (m.handleTopologyChanged norm now ev).shown? mac =
    if mac = norm ev.remoteMac then
      some (topologyShown norm (m.sessionOr mac) ev (m.shown? mac))
    else m.shown? mac := by
  unfold handleTopologyChanged
  dsimp only
  split
  next node hnode =>
    have hsome : m.shown? (norm ev.remoteMac) = some node.shown := by rw [shown?, hnode, Option.map_some]
    refine (shown?_set _ _ _).trans ?_
    rw [apply_ite Node.shown, shown_touchLastSeen, ite_self]
    split_ifs with hmac
    · subst hmac
      rw [hsome]
      rfl
    · rfl
  next hnode =>
    have hnone : m.shown? (norm ev.remoteMac) = none := by rw [shown?, hnode, Option.map_none]
    refine (shown?_set _ _ _).trans ?_
    split_ifs with hmac
    · subst hmac
      rw [hnone]
      rfl
    · rfl

theorem shown?_handleLastSeen (bridgeMac : Text) (nodes : Dict Text Node) (rls : Text × Nat) :
    ((m.handleLastSeen norm now bridgeMac nodes rls).get? mac).map Node.shown = (nodes.get? mac).map Node.shown := by
  unfold handleLastSeen
  split
  · rfl
  next node hnode =>
    rw [shown?_set]
    split_ifs with hmac
    · subst hmac
      rw [hnode]
      rfl
    · rfl

theorem routes_handleHeartbeat (ev : Heartbeat) : (m.handleHeartbeat norm now ev).routes = m.routes := rfl

/-- A heartbeat shows something new of its bridge only. -/
theorem shown?_handleHeartbeat (ev : Heartbeat) (hmac : mac ≠ norm ev.bridgeMac) :
    (m.handleHeartbeat norm now ev).shown? mac = m.shown? mac := by
  have hfold : ∀ (m' : BridgeV2Manager) (nodes : Dict Text Node) (l : List (Text × Nat)),
      ((l.foldl (m'.handleLastSeen norm now (norm ev.bridgeMac)) nodes).get? mac).map Node.shown =
        (nodes.get? mac).map Node.shown := by
    intro m' nodes l
    induction l generalizing nodes with
    | nil => rfl
    | cons rls l ih => exact (ih _).trans (shown?_handleLastSeen _ _ _)
  refine (hfold _ _ _).trans ?_
  split
  · rfl
  · rw [shown?_set, if_neg hmac]
    rfl

/-- What is shown of a remote that a bridge has described. -/
def describedShown (norm : Text → Text) (bridgeMac : Text) (runtime : RemoteRuntime) : Shown :=
  { online := runtime.online, sessionId := runtime.sessionId, parentMac := some (norm runtime.parentMac),
    hops := runtime.hopsToBridge, rssi := runtime.rssi, uptimeS := runtime.uptimeS, isBridge := false,
    bridgeMac := bridgeMac }

/-- The bridge of a remote that is described on its own. -/
def remoteBridge (norm : Text → Text) (client : Client) (snapshot : RemoteSnapshot) (bridgeMacValue : Text) : Text :=
  norm (orElse (orElse bridgeMacValue snapshot.runtime.bridgeMac) client.bridgeMac)

theorem routes_handleRemoteSnapshot (snapshot : RemoteSnapshot) (bridgeMacValue : Text) :
    (m.handleRemoteSnapshot norm now client snapshot bridgeMacValue).routes =
      m.routes.set (norm (norm snapshot.identity.remoteMac))
        (routeFor client (remoteBridge norm client snapshot bridgeMacValue) (norm (norm snapshot.identity.remoteMac))
          snapshot.runtime.sessionId) := rfl

theorem shown?_handleRemoteSnapshot (snapshot : RemoteSnapshot) (bridgeMacValue : Text) :
    (m.handleRemoteSnapshot norm now client snapshot bridgeMacValue).shown? mac =
      if mac = norm (norm snapshot.identity.remoteMac) then
        some (describedShown norm (remoteBridge norm client snapshot bridgeMacValue) snapshot.runtime)
      else m.shown? mac := by
  refine (shown?_set _ _ _).trans (if_congr Iff.rfl (congrArg some ?_) rfl)
  split
  · rfl
  · exact shown_carryOver _ _

/-! ## A snapshot -/

theorem shown?_replaceNode (nodes : Dict Text Node) (k : Text) (node : Node) :
    ((replaceNode nodes k node).get? mac).map Node.shown =
      if mac = k then some node.shown else (nodes.get? mac).map Node.shown := by
  rw [replaceNode, shown?_set]
  refine if_congr Iff.rfl (congrArg some ?_) rfl
  split
  · rfl
  · split_ifs
    · rfl
    · exact shown_carryOver _ _

/-- A remote goes with the others of its bridge. -/
theorem mem_staleMacs {nodes : Dict Text Node} {macs : List Text} {bridgeMac : Text} :
    mac ∈ staleMacs nodes macs bridgeMac ↔ mac ∉ macs ∧ mac ≠ bridgeMac ∧
      ∃ shown ∈ (nodes.get? mac).map Node.shown, shown.bridgeMac = bridgeMac := by
  rw [staleMacs, Dict.mem_keys_filter]
  simp only [Bool.and_eq_true, Bool.not_eq_true', List.contains_eq_mem, decide_eq_false_iff_not, beq_iff_eq, bne_iff_ne,
    Option.mem_def, Option.map_eq_some_iff]
  constructor
  · rintro ⟨node, hnode, ⟨hmacs, hbridge⟩, hne⟩
    exact ⟨hmacs, hne, node.shown, ⟨node, hnode, rfl⟩, hbridge⟩
  · rintro ⟨hmacs, hne, shown, ⟨node, hnode, rfl⟩, hbridge⟩
    exact ⟨node, hnode, ⟨hmacs, hbridge⟩, hne⟩

section

variable {snapshot : FullSnapshot}
  (hnorm : ∀ remote ∈ snapshot.remotes, norm (norm remote.identity.remoteMac) = norm remote.identity.remoteMac)
  (hbridge : mac ≠ norm (norm snapshot.bridgeMac))

include hnorm

/-- Normalizing an address twice finds the same entry. -/
theorem listed?_norm :
    snapshot.remotes.reverse.find? (fun remote => norm (norm remote.identity.remoteMac) = mac) =
      snapshot.listed? norm mac :=
  List.find?_congr fun remote hremote => by rw [hnorm remote (List.mem_reverse.mp hremote)]

include hbridge

/-- The nodes of a snapshot replace those that were shown, the last one of each address counting. -/
theorem shown?_placedNodes : ((m.placedNodes norm now snapshot).get? mac).map Node.shown =
    ((snapshot.listed? norm mac).map fun remote => describedShown norm (norm snapshot.bridgeMac) remote.runtime).or
      (m.shown? mac) := by
  unfold placedNodes snapshotNodes
  dsimp only
  rw [List.foldl_cons, List.foldl_map]
  refine (Dict.view_foldl (fun (nodes : Dict Text Node) k => (nodes.get? k).map Node.shown)
    (fun remote : RemoteSnapshot => norm (norm remote.identity.remoteMac))
    (fun remote => describedShown norm (norm snapshot.bridgeMac) remote.runtime)
    (fun _ _ _ => shown?_replaceNode _ _ _) _ _ _).trans ?_
  rw [shown?_replaceNode, if_neg hbridge, listed?_norm hnorm]
  rfl

/-- A remote has a node in a snapshot exactly if the snapshot lists it. -/
theorem mem_snapshotNodes_iff : mac ∈ ((m.snapshotNodes norm now snapshot).map fun entry => norm entry.1) ↔
    (snapshot.listed? norm mac).isSome = true := by
  unfold snapshotNodes
  dsimp only
  rw [List.map_cons, List.mem_cons, or_iff_right hbridge, List.map_map, ← listed?_norm hnorm, List.find?_isSome]
  simp only [List.mem_map, List.mem_reverse, Function.comp_apply, decide_eq_true_eq]

/-- What `_handle_snapshot` makes of a record: a remote that is listed is what its last entry says, and one that
is not goes if it was known by this bridge. -/
theorem record_handleSnapshot : (m.handleSnapshot norm now client snapshot).record mac =
    match snapshot.listed? norm mac with
    | some remote =>
      (some (describedShown norm (norm snapshot.bridgeMac) remote.runtime),
        some (routeFor client (snapshotBridge norm client snapshot) mac remote.runtime.sessionId))
    | none =>
      if mac ≠ snapshotBridge norm client snapshot ∧
          ∃ shown ∈ m.shown? mac, shown.bridgeMac = snapshotBridge norm client snapshot then (none, none)
      else m.record mac := by
  have hnodes : ((m.placedNodes norm now snapshot).get? mac).map Node.shown = _ := shown?_placedNodes hnorm hbridge
  have hmacs : mac ∈ ((m.snapshotNodes norm now snapshot).map fun entry => norm entry.1) ↔ _ :=
    mem_snapshotNodes_iff hnorm hbridge
  unfold handleSnapshot record
  rw [shown?]
  dsimp only
  rw [Dict.get?_popAll, Dict.get?_foldl_set, Dict.get?_popAll, apply_ite (Option.map Node.shown), Option.map_none]
  cases hlisted : snapshot.listed? norm mac with
  | some remote =>
    have hstale : mac ∉ staleMacs (m.placedNodes norm now snapshot)
        ((m.snapshotNodes norm now snapshot).map fun entry => norm entry.1) (snapshotBridge norm client snapshot) :=
      fun h => (mem_staleMacs.mp h).1 (hmacs.mpr (hlisted ▸ rfl))
    have hmac : norm remote.identity.remoteMac = mac := of_decide_eq_true (List.find?_some hlisted :)
    rw [if_neg hstale, hnodes, hlisted]
    rw [FullSnapshot.listed?] at hlisted
    rw [hlisted, ← hmac]
    rfl
  | none =>
    have hmem : mac ∉ (m.snapshotNodes norm now snapshot).map fun entry => norm entry.1 := fun h => by
      have hsome := hmacs.mp h
      rw [hlisted] at hsome
      cases hsome
    rw [hlisted, Option.map_none, Option.none_or] at hnodes
    rw [FullSnapshot.listed?] at hlisted
    rw [hlisted, Option.map_none, Option.none_or]
    by_cases hgone : mac ≠ snapshotBridge norm client snapshot ∧
        ∃ shown ∈ m.shown? mac, shown.bridgeMac = snapshotBridge norm client snapshot
    · have hstale := mem_staleMacs.mpr ⟨hmem, hgone.1, hnodes.symm ▸ hgone.2⟩
      rw [if_pos hstale, if_pos hstale, if_pos hgone]
    · have hstale : mac ∉ staleMacs (m.placedNodes norm now snapshot)
          ((m.snapshotNodes norm now snapshot).map fun entry => norm entry.1) (snapshotBridge norm client snapshot) :=
        fun h => hgone ⟨(mem_staleMacs.mp h).2.1, hnodes ▸ (mem_staleMacs.mp h).2.2⟩
      rw [if_neg hstale, if_neg hstale, if_neg hgone, hnodes]

end

/-! ## The end of a connection -/

/-- What goes with a bridge is what was shown under it. -/
theorem record_forgetBridge : (m.forgetBridge client).record mac =
    if client.bridgeMac ≠ [] ∧ mac ≠ client.bridgeMac ∧ ∃ shown ∈ m.shown? mac, shown.bridgeMac = client.bridgeMac then
      (none, none)
    else m.record mac := by
  unfold forgetBridge
  by_cases hnone : client.bridgeMac = []
  · rw [if_pos hnone, if_neg fun h => h.1 hnone]
  · have hrecord : (m.record mac) = ((m.topologyNodes.get? mac).map Node.shown, m.routes.get? mac) := rfl
    have hstale : mac ∈ staleMacs m.topologyNodes [] client.bridgeMac ↔ client.bridgeMac ≠ [] ∧
        mac ≠ client.bridgeMac ∧ ∃ shown ∈ m.shown? mac, shown.bridgeMac = client.bridgeMac :=
      mem_staleMacs.trans ⟨fun h => ⟨hnone, h.2⟩, fun h => ⟨List.not_mem_nil, h.2⟩⟩
    rw [if_neg hnone, record, shown?]
    dsimp only
    rw [Dict.get?_popAll, Dict.get?_popAll]
    by_cases hgone : mac ∈ staleMacs m.topologyNodes [] client.bridgeMac
    · rw [if_pos hgone, if_pos hgone, if_pos (hstale.mp hgone)]
      rfl
    · rw [if_neg hgone, if_neg hgone, if_neg fun h => hgone (hstale.mpr h), hrecord]

/-- What an availability report makes of a record. -/
def availableRecord (norm : Text → Text) (client : Client) (r : Option Shown × Option RemoteRoute)
    (ev : Availability) : Option Shown × Option RemoteRoute :=
  let bridgeMac := norm (orElse ev.bridgeMac client.bridgeMac)
  (availableShown bridgeMac ev r.1,
    some (availableRoute client.bridgeUuid bridgeMac (norm ev.remoteMac) ev.sessionId r.2))

/-- A report changes the record of its own remote and no other one. -/
theorem record_handleAvailability (ev : Availability) : (m.handleAvailability norm now client ev).record mac =
    if mac = norm ev.remoteMac then availableRecord norm client (m.record mac) ev else m.record mac := by
  rw [record, shown?_handleAvailability, routes_handleAvailability, Dict.get?_set]
  split_ifs with hmac
  · subst hmac
    rfl
  · rfl

/-- Of several availability reports those of a remote make its record. -/
theorem record_availabilities (evs : List Availability) :
    (m.handleEventBatch norm now client (evs.map .availability)).record mac =
      (evs.filter fun ev => mac = norm ev.remoteMac).foldl (availableRecord norm client) (m.record mac) := by
  induction evs generalizing m with
  | nil => rfl
  | cons ev evs ih =>
    have hstep : (m.handleEventBatch norm now client ((ev :: evs).map .availability)) =
      (m.handleAvailability norm now client ev).handleEventBatch norm now client (evs.map .availability) := rfl
    rw [hstep, ih, record_handleAvailability]
    by_cases hmac : mac = norm ev.remoteMac
    · rw [if_pos hmac, List.filter_cons, if_pos (decide_eq_true hmac), List.foldl_cons]
    · rw [if_neg hmac, List.filter_cons, if_neg (by simpa using hmac)]

/-- The routes stand under the address of their remote, and addresses are written in one way. -/
def Keyed (norm : Text → Text) (m : BridgeV2Manager) : Prop :=
  ∀ k ρ, m.routes.get? k = some ρ → ρ.remoteMac = k ∧ norm k = k ∧ ρ.bridgeMac ≠ [] ∧ norm ρ.bridgeMac = ρ.bridgeMac

/-- What the end of a connection makes of a record, before its nodes go. -/
theorem record_offlineBatch (hkeyed : m.Keyed norm) :
    (m.handleEventBatch norm now client (m.offlineBatchForBridge now client)).record mac =
      match m.routes.get? mac with
      | none => m.record mac
      | some ρ =>
        if ρ.bridgeUuid = client.bridgeUuid then ((m.shown? mac).map (·.lost ρ.sessionId), some ρ)
        else m.record mac := by
  have hfilter : ((m.routes.values.filter fun ρ => ρ.bridgeUuid == client.bridgeUuid).filter fun ρ =>
      mac = norm ρ.remoteMac) = ((m.routes.get? mac).toList.filter fun ρ => ρ.bridgeUuid == client.bridgeUuid) := by
    have hmac : ∀ entry ∈ m.routes.entries, (mac = norm entry.2.remoteMac ↔ entry.1 = mac) := fun entry hentry => by
      obtain ⟨hremote, hnorm, -⟩ := hkeyed entry.1 entry.2 (Dict.mem_entries.mp hentry)
      rw [hremote, hnorm, eq_comm]
    rw [List.filter_comm, Dict.values, List.filter_map]
    have hentries : (m.routes.entries.filter ((fun ρ : RemoteRoute => decide (mac = norm ρ.remoteMac)) ∘ Prod.snd)) =
        m.routes.entries.filter (·.1 = mac) :=
      List.filter_congr fun entry hentry => decide_eq_decide.mpr (hmac entry hentry)
    rw [hentries, Dict.filter_entries]
    cases m.routes.get? mac with
    | none => rfl
    | some ρ => rfl
  have hbatch : m.offlineBatchForBridge now client =
      ((m.routes.values.filter fun ρ => ρ.bridgeUuid == client.bridgeUuid).map fun ρ : RemoteRoute =>
        ({ remoteMac := ρ.remoteMac, bridgeMac := ρ.bridgeMac, sessionId := ρ.sessionId,
           reason := "bridge_disconnected".toList, observedUnixMs := now } : Availability)).map .availability := by
    rw [List.map_map]
    rfl
  rw [hbatch, record_availabilities, List.filter_map]
  have hcomp : ((fun ev : Availability => decide (mac = norm ev.remoteMac)) ∘ fun ρ : RemoteRoute =>
      ({ remoteMac := ρ.remoteMac, bridgeMac := ρ.bridgeMac, sessionId := ρ.sessionId,
         reason := "bridge_disconnected".toList, observedUnixMs := now } : Availability)) =
        fun ρ => decide (mac = norm ρ.remoteMac) := rfl
  rw [hcomp, hfilter]
  cases hroute : m.routes.get? mac with
  | none => rfl
  | some ρ =>
    obtain ⟨hremote, hnorm, hsome, hbridge⟩ := hkeyed mac ρ hroute
    by_cases huuid : ρ.bridgeUuid = client.bridgeUuid
    · have hkeep : (some ρ).toList.filter (fun ρ => ρ.bridgeUuid == client.bridgeUuid) = [ρ] :=
        List.filter_cons_of_pos (beq_iff_eq.mpr huuid)
      have hroute' : availableRoute client.bridgeUuid ρ.bridgeMac ρ.remoteMac ρ.sessionId (some ρ) = ρ := by
        rw [← huuid]
        rfl
      rw [hkeep, List.map_singleton, List.foldl_cons, List.foldl_nil, availableRecord, record, hroute]
      dsimp only
      rw [if_pos huuid, orElse, if_neg hsome, hbridge, hremote, hnorm, ← hremote, hroute']
      cases m.shown? ρ.remoteMac with
      | none => rfl
      | some shown => rfl
    · have hdrop : (some ρ).toList.filter (fun ρ => ρ.bridgeUuid == client.bridgeUuid) = [] :=
        List.filter_cons_of_neg (by simpa using huuid)
      rw [hdrop]
      exact (if_neg huuid).symm

end BridgeV2Manager

end EspTree.Integration
