import EspTree.Integration.Live
import EspTree.Lib.System
import Mathlib.Logic.Function.Basic

/-!
# Bridges, add-on and integration

The add-on has a client for each of its bridges and one queue to the integration.  The clients here are those that
talk to their bridge over a WebSocket (`BridgeV2Client`); those over a serial line start a task for each frame, and are
left out.  A client handles one frame after the other: the add-on takes the frame into its own picture, then it sends
the bridge a receipt for each state that asks for one, and then it passes the frame on.  While the receipts are being
sent the other clients go on, so that frames of different bridges may reach the integration in another order than the
add-on.  When a connection is lost the add-on tells the integration that the remotes of the bridge are offline.

Any steps may follow each other; `Hub.Admitted` says only when a step can be taken, and that a bridge names
itself and writes addresses as they should be.  `handled`, `passed` and `seen` are histories.
-/

namespace EspTree.Integration

open AddOn.Rename (Text)

/-- A frame, and the client that it is of.  A snapshot that is replayed has no source. -/
structure Told where
  source : Option Nat
  client : Client
  frame : Frame

/-- What the add-on has gone through: a frame, or the end of a connection. -/
inductive Entry
  | told (t : Told)
  | gone (client : Client)

/-- The clients and what the add-on and the integration have. -/
structure Hub where
  manager : BridgeV2Manager := {}
  clients : Nat → Client
  waiting : Nat → Option Frame := fun _ => none
  feed : Option (List Told) := none
  runtime : EspTreeRuntime := {}
  handled : List Entry := []
  passed : List Told := []
  seen : List Told := []

/-- What can happen; `c` is the number of a client. -/
inductive Act
  | authenticate (c : Nat) (bridgeMac : Text)
  | connect (c : Nat)
  | frame (c : Nat) (frame : Frame) (now : Nat)
  | receipts (c : Nat)
  | lost (c : Nat) (now : Nat)
  | join
  | leave
  | read (now : Nat)
  | restart (runtime : EspTreeRuntime)

/-- A state that the bridge wants to have a receipt for. -/
def Event.wantsReceipt : Event → Bool
  | .state ev => ev.stateTxCounter ≠ 0
  | _ => false

/-- The add-on has receipts to send for a frame before it passes it on. -/
def Frame.wantsReceipts : Frame → Bool
  | .snapshot _ => false
  | .events batch => batch.any Event.wantsReceipt

/-- A client takes the address of its bridge from its snapshots. -/
def Client.take (norm : Text → Text) (client : Client) : Frame → Client
  | .snapshot full =>
    let bridgeMac := BridgeV2Manager.snapshotBridge norm client full
    if bridgeMac = [] then client else { client with bridgeMac := bridgeMac }
  | .events _ => client

/-- `put_nowait` of `_broadcast_binary`; a queue that is full is emptied first. -/
def enqueue (q : List Told) (t : Told) : List Told := if 256 ≤ q.length then [t] else q ++ [t]

/-- The snapshots of `replay_snapshots`. -/
def BridgeV2Manager.replay (norm : Text → Text) (m : BridgeV2Manager) : List Told :=
  m.snapshots.entries.map fun entry =>
    { source := none
      client := { bridgeUuid := entry.1, bridgeMac := norm entry.2.bridgeMac, connected := true }
      frame := .snapshot entry.2 }

namespace Hub

variable (norm norm' : Text → Text) (s : Hub)

/-- `_broadcast_binary`. -/
def pass (t : Told) : Hub := { s with feed := s.feed.map (enqueue · t), passed := s.passed ++ [t] }

def step : Act → Hub
  | .authenticate c bridgeMac =>
    { s with clients := Function.update s.clients c { s.clients c with bridgeMac := bridgeMac } }
  | .connect c => { s with clients := Function.update s.clients c { s.clients c with connected := true } }
  | .frame c frame now =>
    let t : Told := { source := some c, client := s.clients c, frame := frame }
    let s' : Hub := { s with
      manager := s.manager.handleFrame norm now (s.clients c) frame
      clients := Function.update s.clients c ((s.clients c).take norm frame)
      handled := s.handled ++ [.told t] }
    if frame.wantsReceipts then { s' with waiting := Function.update s.waiting c (some frame) } else s'.pass t
  | .receipts c =>
    match s.waiting c with
    | none => s
    | some frame =>
      { s with waiting := Function.update s.waiting c none }.pass
        { source := some c, client := s.clients c, frame := frame }
  | .lost c now =>
    let batch := s.manager.offlineBatchForBridge now (s.clients c)
    let t : Told := { source := some c, client := s.clients c, frame := .events batch }
    let s' : Hub := { s with
      manager := s.manager.handleDisconnect norm now (s.clients c)
      clients := Function.update s.clients c { s.clients c with connected := false }
      waiting := Function.update s.waiting c none
      handled := s.handled ++ (if batch = [] then [.gone (s.clients c)] else [.told t, .gone (s.clients c)]) }
    if batch = [] then s' else s'.pass t
  | .join => { s with feed := some (s.manager.replay norm) }
  | .leave => { s with feed := none }
  | .read now =>
    match s.feed with
    | some (t :: rest) =>
      { s with feed := some rest, runtime := s.runtime.handleFrame norm' now t.frame, seen := s.seen ++ [t] }
    | _ => s
  | .restart runtime => { s with runtime := runtime, seen := [] }

/-- A client authenticates and connects once at a time, and it reads on when it has passed on what it read. -/
def Admitted (bridges remotes : Set Text) (s : Hub) : Act → Prop
  | .authenticate c bridgeMac => (s.clients c).connected = false ∧ bridgeMac ∈ bridges
  | .connect c => (s.clients c).connected = false ∧ (s.clients c).bridgeMac ∈ bridges
  | .frame c frame _ =>
    (s.clients c).connected = true ∧ s.waiting c = none ∧ frame.Proper bridges remotes (s.clients c)
  | .lost c _ => (s.clients c).connected = true
  | _ => True

/-- No client is given up while its receipts are being sent. -/
def Undisturbed (bridges remotes : Set Text) (s : Hub) (a : Act) : Prop :=
  Admitted bridges remotes s a ∧ ∀ c now, a = .lost c now → s.waiting c = none

/-- At first no client is connected and nothing is known. -/
def Initial (s : Hub) : Prop :=
  ∃ (clients : Nat → Client) (runtime : EspTreeRuntime), (∀ c, (clients c).connected = false) ∧
    s = { clients := clients, runtime := runtime }

end Hub

/-! ## What has been told -/

namespace Picture

/-- The picture of a remote after one entry of what the add-on has gone through. -/
def note (mac : Text) (p : Option Picture) : Entry → Option Picture
  | .told t => keep t.client mac t.frame (tellFrame t.client mac p t.frame)
  | .gone client => leave client p

/-- What the add-on has been told of a remote. -/
def noted (mac : Text) (log : List Entry) : Option Picture := log.foldl (note mac) none

/-- What the frames tell of a remote. -/
def told (mac : Text) (frames : List Told) : Option Picture :=
  frames.foldl (fun p t => tellFrame t.client mac p t.frame) none

end Picture

/-! ## The routes and the snapshots of the add-on -/

/-- The routes stand under the remotes that they are to. -/
def BridgeV2Manager.Routed (bridges remotes : Set Text) (m : BridgeV2Manager) : Prop :=
  ∀ k ρ, m.routes.get? k = some ρ → k ∈ remotes ∧ ρ.remoteMac = k ∧ ρ.bridgeMac ∈ bridges

/-- The frame of a bridge, with proper addresses. -/
def Told.Proper (bridges remotes : Set Text) (t : Told) : Prop :=
  t.client.bridgeMac ∈ bridges ∧ t.frame.Proper bridges remotes t.client

namespace BridgeV2Manager

variable {norm : Text → Text} {m : BridgeV2Manager} {now : Nat} {client : Client} {bridges remotes : Set Text}

/-- A route that names its own remote is found under its address. -/
theorem Routed.keyed (haddr : Addressing norm bridges remotes) (h : m.Routed bridges remotes) : m.Keyed norm := by
  intro k ρ hρ
  obtain ⟨hk, hremote, hbridge⟩ := h k ρ hρ
  exact ⟨hremote, haddr.norm_remote _ hk, haddr.bridge_ne_nil _ hbridge, haddr.norm_bridge _ hbridge⟩

/-- A new route has to name its remote and a bridge. -/
theorem Routed.set (h : m.Routed bridges remotes) {k : Text} {ρ : RemoteRoute} {m' : BridgeV2Manager}
    (hroutes : m'.routes = m.routes.set k ρ) (hk : k ∈ remotes) (hremote : ρ.remoteMac = k)
    (hbridge : ρ.bridgeMac ∈ bridges) : m'.Routed bridges remotes := by
  intro k' ρ' hρ'
  rw [hroutes, Dict.get?_set] at hρ'
  split_ifs at hρ' with heq
  · subst heq
    cases hρ'
    exact ⟨hk, hremote, hbridge⟩
  · exact h k' ρ' hρ'

/-- Routes that go leave the others as they are. -/
theorem Routed.popAll (h : m.Routed bridges remotes) {ks : List Text} {m' : BridgeV2Manager}
    (hroutes : m'.routes = m.routes.popAll ks) : m'.Routed bridges remotes := by
  intro k ρ hρ
  rw [hroutes, Dict.get?_popAll, Option.ite_none_left_eq_some] at hρ
  exact h k ρ hρ.2

/-- The reports of a connection that is lost have proper addresses. -/
theorem Routed.offlineBatch (h : m.Routed bridges remotes) :
    ∀ ev ∈ m.offlineBatchForBridge now client, ev.Proper bridges remotes client := by
  intro ev hev
  obtain ⟨ρ, hρ, rfl⟩ := List.mem_map.mp hev
  obtain ⟨k, hk⟩ := Dict.mem_values.mp (List.mem_filter.mp hρ).1
  obtain ⟨hremote, heq, hbridge⟩ := h k ρ hk
  exact ⟨heq.symm ▸ hremote, hbridge⟩

section

variable (haddr : Addressing norm bridges remotes)

include haddr

theorem Routed.handleAvailability {ev : Availability} (hremote : ev.remoteMac ∈ remotes)
    (hbridge : ev.bridgeMac ∈ bridges) (h : m.Routed bridges remotes) :
    (m.handleAvailability norm now client ev).Routed bridges remotes := by
  refine h.set (routes_handleAvailability ev) ?_ ?_ ?_
  · rwa [haddr.norm_remote _ hremote]
  · rw [haddr.norm_remote _ hremote, availableRoute]
    cases hroute : m.routes.get? ev.remoteMac with
    | none => rfl
    | some ρ => exact (h _ ρ hroute).2.1
  · rw [orElse, if_neg (haddr.bridge_ne_nil _ hbridge), haddr.norm_bridge _ hbridge]
    exact hbridge

/-- An event with proper addresses keeps the routes proper. -/
theorem Routed.handleEvent {ev : Event} (hclient : client.bridgeMac ∈ bridges) (hev : ev.Proper bridges remotes client)
    (h : m.Routed bridges remotes) : (m.handleEvent norm now client ev).Routed bridges remotes := by
  have hsnapshot {snapshot : RemoteSnapshot} (hremote : snapshot.identity.remoteMac ∈ remotes) :
      (m.handleRemoteSnapshot norm now client snapshot client.bridgeMac).Routed bridges remotes := by
    have hne := haddr.bridge_ne_nil _ hclient
    refine h.set (routes_handleRemoteSnapshot _ _) ?_ rfl ?_
    · rwa [haddr.norm_remote _ hremote, haddr.norm_remote _ hremote]
    · change remoteBridge norm client snapshot client.bridgeMac ∈ bridges
      rwa [remoteBridge, orElse, orElse, if_neg hne, if_neg hne, haddr.norm_bridge _ hclient]
  cases ev with
  | availability ev => exact h.handleAvailability haddr hev.1 hev.2
  | state ev =>
    intro k ρ hρ
    have hroute : (m.handleState norm now ev).routes.get? k = some ρ := hρ
    rw [routes_handleState, routes_setSession] at hroute
    split_ifs at hroute
    · obtain ⟨ρ, hold, rfl⟩ := Option.map_eq_some_iff.mp hroute
      exact h k ρ hold
    · exact h k ρ hroute
  | schemaChanged bridgeMac snapshot =>
    obtain ⟨hremote, rfl, -⟩ := hev
    exact hsnapshot hremote
  | metadataChanged identity runtime =>
    obtain ⟨hremote, hbridge⟩ := hev
    change (m.handleRemoteSnapshot norm now client _ runtime.bridgeMac).Routed bridges remotes
    rw [hbridge]
    exact hsnapshot hremote
  | topologyChanged ev =>
    have hroutes : (m.handleEvent norm now client (.topologyChanged ev)).routes = m.routes :=
      routes_handleTopologyChanged ev
    exact fun k ρ hρ => h k ρ (hroutes ▸ hρ)
  | heartbeat ev => exact h
  | unknown => exact h

theorem Routed.handleEventBatch {batch : List Event} (hclient : client.bridgeMac ∈ bridges)
    (hbatch : ∀ ev ∈ batch, ev.Proper bridges remotes client) (h : m.Routed bridges remotes) :
    (m.handleEventBatch norm now client batch).Routed bridges remotes := by
  induction batch generalizing m with
  | nil => exact h
  | cons ev batch ih =>
    obtain ⟨hev, hbatch⟩ := List.forall_mem_cons.mp hbatch
    exact ih hbatch (h.handleEvent haddr hclient hev)

/-- So does every frame. -/
theorem Routed.handleFrame {frame : Frame} (hclient : client.bridgeMac ∈ bridges)
    (hframe : frame.Proper bridges remotes client) (h : m.Routed bridges remotes) :
    (m.handleFrame norm now client frame).Routed bridges remotes := by
  cases frame with
  | snapshot full =>
    intro k ρ hρ
    have hroute : (m.handleSnapshot norm now client full).routes.get? k = some ρ := hρ
    unfold handleSnapshot at hroute
    dsimp only at hroute
    rw [Dict.get?_foldl_set] at hroute
    rcases Option.or_eq_some_iff.mp hroute with hnew | ⟨-, hold⟩
    · obtain ⟨remote, hfind, rfl⟩ := Option.map_eq_some_iff.mp hnew
      have hmac : norm remote.identity.remoteMac = k := of_decide_eq_true (List.find?_some hfind :)
      have hremote := (hframe.2 remote (List.mem_reverse.mp (List.mem_of_find?_eq_some hfind))).1
      have hown : snapshotBridge norm client full = client.bridgeMac := by
        rw [snapshotBridge, hframe.1, orElse, if_neg (haddr.bridge_ne_nil _ hclient), haddr.norm_bridge _ hclient]
      refine ⟨?_, hmac, ?_⟩
      · rwa [← hmac, haddr.norm_remote _ hremote]
      · exact hown.symm ▸ hclient
    · rw [Dict.get?_popAll, Option.ite_none_left_eq_some] at hold
      exact h k ρ hold.2
  | events batch => exact h.handleEventBatch haddr hclient hframe

/-- So does the loss of a connection. -/
theorem Routed.handleDisconnect (hclient : client.bridgeMac ∈ bridges) (h : m.Routed bridges remotes) :
    (m.handleDisconnect norm now client).Routed bridges remotes := by
  have h' : (m.handleEventBatch norm now client (m.offlineBatchForBridge now client)).Routed bridges remotes :=
    h.handleEventBatch haddr hclient h.offlineBatch
  unfold BridgeV2Manager.handleDisconnect BridgeV2Manager.forgetBridge
  rw [if_neg (haddr.bridge_ne_nil _ hclient)]
  exact h'.popAll rfl

end

end BridgeV2Manager

end EspTree.Integration
