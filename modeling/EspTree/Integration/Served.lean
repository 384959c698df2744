import EspTree.Integration.HubRuns

/-!
# Who serves a remote

Of a remote that the add-on shows online a client is connected that has reported it or described it
(`Hub.online_served`): what is left of a bridge that has gone is offline or forgotten.

A remote is served by a client if the route to it, or the bridge that it is shown under, is that of
a client that is connected.  The frames keep that: what a client reports it serves from then on.  Only
the loss of a connection can break it, and there the add-on goes over all remotes that are shown
under the bridge that was lost.

A state alone does not bring a remote online, so a remote that is shown online has been described or
reported available by a client since that client connected.
-/

namespace EspTree.Integration

open Wire Transition
open AddOn.Rename (Text normalizeMac)

/-- A remote that is shown online has a route over a client that is connected, or it is filed under the bridge of
one. -/
def Served (clients : Nat → Client) (r : Option Shown × Option RemoteRoute) : Prop :=
  ∀ shown ∈ r.1, shown.online = true →
    (∃ ρ ∈ r.2, ∃ c, (clients c).connected = true ∧ (clients c).bridgeUuid = ρ.bridgeUuid) ∨
      ∃ c, (clients c).connected = true ∧ (clients c).bridgeMac = shown.bridgeMac

/-- A client that was not connected has served nobody. -/
theorem Served.updateClient {clients : Nat → Client} {r : Option Shown × Option RemoteRoute} {c : Nat} (client : Client)
    (hc : (clients c).connected = false) (h : Served clients r) : Served (Function.update clients c client) r := by
  have hother {c' : Nat} (hc' : (clients c').connected = true) : Function.update clients c client c' = clients c' := by
    refine Function.update_of_ne ?_ _ _
    rintro rfl
    exact absurd (hc.symm.trans hc') Bool.false_ne_true
  intro shown hshown honline
  rcases h shown hshown honline with ⟨ρ, hρ, c', hc', huuid⟩ | ⟨c', hc', hbridge⟩
  · refine .inl ⟨ρ, hρ, c', ?_⟩
    rw [hother hc']
    exact ⟨hc', huuid⟩
  · refine .inr ⟨c', ?_⟩
    rw [hother hc']
    exact ⟨hc', hbridge⟩

namespace BridgeV2Manager

variable {norm : Text → Text} {m : BridgeV2Manager} {now : Nat} {clients : Nat → Client} {c : Nat} {mac : Text}
  {bridges remotes : Set Text}

/-- A client that has just reported a remote serves it. -/
theorem served_of_route {r : Option Shown × Option RemoteRoute} (hc : (clients c).connected = true) {ρ : RemoteRoute}
    (hρ : r.2 = some ρ) (huuid : ρ.bridgeUuid = (clients c).bridgeUuid) : Served clients r :=
  fun _ _ _ => .inl ⟨ρ, hρ, c, hc, huuid.symm⟩

section

variable (haddr : Addressing norm bridges remotes) (hmac : mac ∈ remotes) (hc : (clients c).connected = true)
  (hclient : (clients c).bridgeMac ∈ bridges)

include hc

/-- A remote that a client describes is served by it. -/
theorem served_handleRemoteSnapshot (snapshot : RemoteSnapshot) (bridgeMac : Text)
    (h : Served clients (m.record mac)) :
    Served clients ((m.handleRemoteSnapshot norm now (clients c) snapshot bridgeMac).record mac) := by
  have hnode : (m.handleRemoteSnapshot norm now (clients c) snapshot bridgeMac).shown? mac = _ :=
    shown?_handleRemoteSnapshot _ _
  have hroute : (m.handleRemoteSnapshot norm now (clients c) snapshot bridgeMac).routes.get? mac = _ :=
    (congrArg (·.get? mac) (routes_handleRemoteSnapshot _ _)).trans Dict.get?_set
  by_cases heq : mac = norm (norm snapshot.identity.remoteMac)
  · rw [if_pos heq] at hroute
    exact served_of_route hc hroute rfl
  · rw [if_neg heq] at hnode hroute
    rw [record, hnode, hroute]
    exact h

include haddr hmac hclient

/-- An event leaves every remote served: the one that it is about by the client that has sent it. -/
theorem served_handleEvent {ev : Event} (hev : ev.Proper bridges remotes (clients c))
    (h : Served clients (m.record mac)) :
    Served clients ((m.handleEvent norm now (clients c) ev).record mac) := by
  cases ev with
  | availability ev =>
    have hrecord : (m.handleAvailability norm now (clients c) ev).record mac = _ := record_handleAvailability ev
    change Served clients ((m.handleAvailability norm now (clients c) ev).record mac)
    rw [hrecord]
    split_ifs
    · exact served_of_route hc rfl rfl
    · exact h
  | state ev =>
    have hnode : (m.handleState norm now ev).shown? mac = _ := shown?_handleState ev
    have hroute : (m.handleState norm now ev).routes.get? mac = _ :=
      (congrArg (·.get? mac) (routes_handleState ev)).trans (routes_setSession _ _)
    change Served clients ((m.handleState norm now ev).record mac)
    rw [record, hnode, hroute]
    split_ifs
    · intro shown' hshown' honline
      obtain ⟨shown, hshown, rfl⟩ := Option.map_eq_some_iff.mp hshown'
      rcases h shown hshown honline with ⟨ρ, hρ, hserves⟩ | hbridge
      · exact .inl ⟨_, Option.map_eq_some_iff.mpr ⟨ρ, hρ, rfl⟩, hserves⟩
      · exact .inr hbridge
    · exact h
  | schemaChanged bridgeMac snapshot => exact served_handleRemoteSnapshot hc snapshot bridgeMac h
  | metadataChanged identity runtime => exact served_handleRemoteSnapshot hc _ _ h
  | topologyChanged ev =>
    obtain ⟨-, hbridge⟩ := hev
    have hnode : (m.handleTopologyChanged norm now ev).shown? mac = _ := shown?_handleTopologyChanged ev
    have hroute : (m.handleTopologyChanged norm now ev).routes.get? mac = m.routes.get? mac :=
      congrArg (·.get? mac) (routes_handleTopologyChanged ev)
    change Served clients ((m.handleTopologyChanged norm now ev).record mac)
    rw [record, hnode, hroute]
    split_ifs
    · rintro shown' ⟨⟩ honline
      cases hshown : m.shown? mac with
      | some shown =>
        rw [hshown] at honline
        exact h shown hshown honline
      | none => exact .inr ⟨c, hc, by rw [topologyShown, hbridge, haddr.norm_bridge _ hclient]⟩
    · exact h
  | heartbeat ev =>
    have hne : mac ≠ norm ev.bridgeMac := by
      rw [haddr.norm_bridge _ hev]
      exact haddr.ne _ hmac _ hev
    have hnode : (m.handleHeartbeat norm now ev).shown? mac = m.shown? mac := shown?_handleHeartbeat ev hne
    have hrecord : (m.handleHeartbeat norm now ev).record mac = m.record mac := by
      rw [record, hnode, routes_handleHeartbeat, record]
    change Served clients ((m.handleHeartbeat norm now ev).record mac)
    rwa [hrecord]
  | unknown => exact h

/-- So does a batch of them. -/
theorem served_handleEventBatch {batch : List Event} (hbatch : ∀ ev ∈ batch, ev.Proper bridges remotes (clients c))
    (h : Served clients (m.record mac)) :
    Served clients ((m.handleEventBatch norm now (clients c) batch).record mac) := by
  induction batch generalizing m with
  | nil => exact h
  | cons ev batch ih =>
    obtain ⟨hev, hbatch⟩ := List.forall_mem_cons.mp hbatch
    exact ih hbatch (served_handleEvent haddr hmac hc hclient hev h)

/-- So does every frame. -/
theorem served_handleFrame {frame : Frame} (hframe : frame.Proper bridges remotes (clients c))
    (h : Served clients (m.record mac)) :
    Served clients ((m.handleFrame norm now (clients c) frame).record mac) := by
  cases frame with
  | snapshot full =>
    obtain ⟨hbridge, hremotes⟩ := hframe
    have hrecord : (m.handleSnapshot norm now (clients c) full).record mac = _ := record_handleSnapshot
      (fun remote hremote => congrArg norm (haddr.norm_remote _ (hremotes remote hremote).1))
      (by rw [hbridge, haddr.norm_bridge _ hclient, haddr.norm_bridge _ hclient]; exact haddr.ne _ hmac _ hclient)
    change Served clients ((m.handleSnapshot norm now (clients c) full).record mac)
    rw [hrecord]
    split
    · exact served_of_route hc rfl rfl
    · split_ifs
      · rintro shown ⟨⟩
      · exact h
  | events batch => exact served_handleEventBatch haddr hmac hc hclient hframe h

end

/-- Nothing that a client has served alone is online when its connection is lost. -/
theorem served_handleDisconnect (hkeyed : m.Keyed norm) (hbridge : (clients c).bridgeMac ≠ [])
    (hne : mac ≠ (clients c).bridgeMac) (h : Served clients (m.record mac)) :
    Served (Function.update clients c { clients c with connected := false })
      ((m.handleDisconnect norm now (clients c)).record mac) := by
  have hother {c' : Nat} (hc' : c' ≠ c) :
      Function.update clients c { clients c with connected := false } c' = clients c' :=
    Function.update_of_ne hc' _ _
  have hbatch : (m.handleEventBatch norm now (clients c) (m.offlineBatchForBridge now (clients c))).record mac = _ :=
    record_offlineBatch hkeyed
  unfold handleDisconnect
  rw [record_forgetBridge]
  split_ifs with hgone
  · rintro shown ⟨⟩
  intro shown hshown honline
  have hstays : shown.bridgeMac ≠ (clients c).bridgeMac := fun heq => hgone ⟨hbridge, hne, shown, hshown, heq⟩
  have hold : ∀ ρ, m.routes.get? mac = some ρ → ρ.bridgeUuid ≠ (clients c).bridgeUuid := by
    intro ρ hρ huuid
    rw [hρ] at hbatch
    dsimp only at hbatch
    rw [hbatch, if_pos huuid] at hshown
    obtain ⟨lost, -, rfl⟩ := Option.map_eq_some_iff.mp hshown
    cases honline
  have hsame : (m.handleEventBatch norm now (clients c) (m.offlineBatchForBridge now (clients c))).record mac =
      m.record mac := by
    rw [hbatch]
    cases hρ : m.routes.get? mac with
    | none => rfl
    | some ρ => exact if_neg (hold ρ hρ)
  rw [hsame] at hshown ⊢
  rcases h shown hshown honline with ⟨ρ, hρ, c', hc', huuid⟩ | ⟨c', hc', hfiled⟩
  · have hc : c' ≠ c := by
      rintro rfl
      exact hold ρ hρ huuid.symm
    refine .inl ⟨ρ, hρ, c', ?_⟩
    rw [hother hc]
    exact ⟨hc', huuid⟩
  · have hc : c' ≠ c := by
      rintro rfl
      exact hstays hfiled.symm
    refine .inr ⟨c', ?_⟩
    rw [hother hc]
    exact ⟨hc', hfiled⟩

end BridgeV2Manager

namespace Hub

variable {norm norm' : Text → Text} {bridges remotes : Set Text} {s : Hub} {mac : Text}

/-- Every remote is served. -/
def AllServed (remotes : Set Text) (s : Hub) : Prop := ∀ mac ∈ remotes, Served s.clients (s.manager.record mac)

/-- Every step leaves all remotes served.  When a connection is lost, what its client served is
offline or forgotten. -/
theorem AllServed.step (haddr : Addressing norm bridges remotes) {a : Act} (ha : Admitted bridges remotes s a)
    (hgood : Good norm norm' bridges remotes s) (h : AllServed remotes s) :
    AllServed remotes (s.step norm norm' a) := by
  intro mac hmac
  cases a with
  | authenticate c bridgeMac => exact (h mac hmac).updateClient _ ha.1
  | connect c => exact (h mac hmac).updateClient _ ha.1
  | frame c frame now =>
    obtain ⟨hconnected, -, hframe⟩ := ha
    have hclient := hgood.addressed c hconnected
    have hserved : Served (Function.update s.clients c ((s.clients c).take norm frame))
        ((s.manager.handleFrame norm now (s.clients c) frame).record mac) := by
      rw [take_eq haddr hclient hframe, Function.update_eq_self]
      exact BridgeV2Manager.served_handleFrame haddr hmac hconnected hclient hframe (h mac hmac)
    simp only [Hub.step]
    split_ifs
    · exact hserved
    · exact hserved
  | receipts c =>
    simp only [Hub.step]
    split
    · exact h mac hmac
    · exact h mac hmac
  | lost c now =>
    have hclient := hgood.addressed c ha
    have hserved : Served (Function.update s.clients c { s.clients c with connected := false })
        ((s.manager.handleDisconnect norm now (s.clients c)).record mac) :=
      BridgeV2Manager.served_handleDisconnect (hgood.routed.keyed haddr) (haddr.bridge_ne_nil _ hclient)
        (haddr.ne _ hmac _ hclient) (h mac hmac)
    simp only [Hub.step]
    split_ifs
    · exact hserved
    · exact hserved
  | join => exact h mac hmac
  | leave => exact h mac hmac
  | read now =>
    simp only [Hub.step]
    split
    · exact h mac hmac
    · exact h mac hmac
  | restart runtime => exact h mac hmac

/-- In every run a remote that the add-on shows online has a route over a client that is connected, or it was
described by the bridge of a client that is connected. -/
theorem online_served (haddr : Addressing norm bridges remotes) (haddr' : Addressing norm' bridges remotes)
    (hs : Reachable Initial (Admitted bridges remotes) (step norm norm') s) (hmac : mac ∈ remotes) {shown : Shown}
    (hshown : s.manager.shown? mac = some shown) (honline : shown.online = true) :
    (∃ ρ ∈ s.manager.routes.get? mac, ∃ c,
        (s.clients c).connected = true ∧ (s.clients c).bridgeUuid = ρ.bridgeUuid) ∨
      ∃ c, (s.clients c).connected = true ∧ (s.clients c).bridgeMac = shown.bridgeMac := by
  have hinit (s : Hub) (hs : Initial s) : Good norm norm' bridges remotes s ∧ AllServed remotes s := by
    refine ⟨.initial hs, ?_⟩
    obtain ⟨clients, runtime, -, rfl⟩ := hs
    rintro mac - shown ⟨⟩
  have hboth : Good norm norm' bridges remotes s ∧ AllServed remotes s :=
    hs.invariant (I := fun s => Good norm norm' bridges remotes s ∧ AllServed remotes s) hinit
      fun _ _ h ha => ⟨h.1.step haddr haddr' ha, h.2.step haddr ha h.1⟩
  exact hboth.2 mac hmac shown hshown honline

/-- Another bridge with another remote. -/
def secondSnapshot : FullSnapshot :=
  { bridgeMac := macColonString (Octets.fit 6 [3])
    remotes := [{
      identity := { remoteMac := macColonString (Octets.fit 6 [4]) }
      runtime := { online := true, hopsToBridge := 1, sessionId := ['t'] } }] }

/-- The second bridge connects and describes its remote, and its connection is lost. -/
def secondLost : Hub :=
  runFrom (step (normalizeMac (List.map Char.toUpper)) (normMac (List.map Char.toUpper)))
    { clients := fun c => { bridgeUuid := if c = 0 then ['u'] else ['v'] } }
    [.authenticate 0 (macColonString (Octets.fit 6 [1])), .connect 0, .frame 0 (.snapshot firstSnapshot) 1000,
      .authenticate 1 (macColonString (Octets.fit 6 [3])), .connect 1, .frame 1 (.snapshot secondSnapshot) 1001,
      .lost 1 1002]

theorem secondMacs_ne : ∀ r ∈ ({Octets.fit 6 [2], Octets.fit 6 [4]} : Set Mac),
    ∀ b ∈ ({Octets.fit 6 [1], Octets.fit 6 [3]} : Set Mac), macColonString r ≠ macColonString b := by
  rintro r (rfl | rfl) b (rfl | rfl)
  all_goals decide

theorem secondLost_reachable : Reachable Initial
    (Admitted (macColonString '' {Octets.fit 6 [1], Octets.fit 6 [3]})
      (macColonString '' {Octets.fit 6 [2], Octets.fit 6 [4]}))
    (step (normalizeMac (List.map Char.toUpper)) (normMac (List.map Char.toUpper))) secondLost := by
  have hfirst : macColonString (Octets.fit 6 [1]) ∈
      macColonString '' ({Octets.fit 6 [1], Octets.fit 6 [3]} : Set Mac) := ⟨_, .inl rfl, rfl⟩
  have hsecond : macColonString (Octets.fit 6 [3]) ∈
      macColonString '' ({Octets.fit 6 [1], Octets.fit 6 [3]} : Set Mac) := ⟨_, .inr rfl, rfl⟩
  refine .runFrom (.start ⟨_, _, fun _ => rfl, rfl⟩)
    ⟨⟨rfl, hfirst⟩, ⟨rfl, hfirst⟩, ⟨rfl, rfl, rfl, fun remote hr => ?_⟩, ⟨rfl, hsecond⟩, ⟨rfl, hsecond⟩,
      ⟨rfl, rfl, rfl, fun remote hr => ?_⟩, rfl, trivial⟩
  · rw [List.mem_singleton.mp hr]
    exact ⟨⟨_, .inl rfl, rfl⟩, .inl rfl⟩
  · rw [List.mem_singleton.mp hr]
    exact ⟨⟨_, .inr rfl, rfl⟩, .inl rfl⟩

/-- The remote of the bridge that has gone is not shown any more, and the other one is served by its own bridge. -/
theorem online_served_secondLost :
    secondLost.manager.shown? (macColonString (Octets.fit 6 [4])) = none ∧
      ((∃ ρ ∈ secondLost.manager.routes.get? (macColonString (Octets.fit 6 [2])), ∃ c,
          (secondLost.clients c).connected = true ∧ (secondLost.clients c).bridgeUuid = ρ.bridgeUuid) ∨
        ∃ c, (secondLost.clients c).connected = true ∧
          (secondLost.clients c).bridgeMac = macColonString (Octets.fit 6 [1])) := by
  have hshown : secondLost.manager.shown? (macColonString (Octets.fit 6 [2])) =
      some { online := true, sessionId := ['s'], parentMac := some [], hops := 1, rssi := -50, uptimeS := 0,
             isBridge := false, bridgeMac := macColonString (Octets.fit 6 [1]) } := rfl
  exact ⟨rfl, online_served (addressing_printed (normalizeMac_macColonString _) secondMacs_ne)
    (addressing_printed (normMac_macColonString fun _ _ => rfl) secondMacs_ne) secondLost_reachable
    ⟨_, .inl rfl, rfl⟩ hshown rfl⟩

end Hub

end EspTree.Integration
