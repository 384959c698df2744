import EspTree.Integration.Hub

/-!
# What the add-on and the integration show

In every run of the hub the add-on shows, of each remote whose reports agree, the picture that it has been told by the
bridges, and sends the commands for it by the client that has reported it last; the integration shows the picture of
the frames that it has read (`Hub.shows_told`).  The two pictures are of different reports: the add-on is ahead, it
has the frames of all clients in the order in which they came, and it forgets the remotes of a bridge that has gone.
Where one client alone has reported a remote, and what it has reported has been passed on and read, both show the
same (`Hub.agree`).
-/

namespace EspTree.Integration

open Wire Transition
open AddOn.Rename (Text normalizeMac)

/-! ## The snapshots of the add-on -/

namespace BridgeV2Manager

variable {norm : Text → Text} {m : BridgeV2Manager} {now : Nat} {client : Client} {bridges remotes : Set Text}

/-- The snapshots that are kept for the integration have proper addresses. -/
def Stored (bridges remotes : Set Text) (m : BridgeV2Manager) : Prop :=
  ∀ uuid full, m.snapshots.get? uuid = some full →
    full.bridgeMac ∈ bridges ∧ ∀ client : Client, client.bridgeMac = full.bridgeMac →
      (Frame.snapshot full).Proper bridges remotes client

theorem snapshots_handleEvent (ev : Event) : (m.handleEvent norm now client ev).snapshots = m.snapshots := by
  cases ev with
  | availability ev =>
    simp only [handleEvent, handleAvailability]
    split
    · rfl
    · split_ifs
      · rfl
      · rfl
  | state ev =>
    have hsession : (m.setSession (norm ev.remoteMac) ev.sessionId).snapshots = m.snapshots := by
      unfold setSession
      split
      · rfl
      · rfl
    simp only [handleEvent, handleState]
    split
    · exact hsession
    · split_ifs
      · exact hsession
      · exact hsession
  | schemaChanged bridgeMac snapshot => rfl
  | metadataChanged identity runtime => rfl
  | topologyChanged ev =>
    simp only [handleEvent, handleTopologyChanged]
    split
    · rfl
    · rfl
  | heartbeat ev => rfl
  | unknown => rfl

theorem snapshots_handleEventBatch (batch : List Event) :
    (m.handleEventBatch norm now client batch).snapshots = m.snapshots := by
  induction batch generalizing m with
  | nil => rfl
  | cons ev batch ih => exact ih.trans (snapshots_handleEvent ev)

/-- The snapshots that are kept for the replay are those that came from the bridges. -/
theorem Stored.handleFrame {frame : Frame} (hclient : client.bridgeMac ∈ bridges)
    (hframe : frame.Proper bridges remotes client) (h : m.Stored bridges remotes) :
    (m.handleFrame norm now client frame).Stored bridges remotes := by
  cases frame with
  | snapshot full =>
    intro uuid full' hfull
    have hset : (m.snapshots.set client.bridgeUuid full).get? uuid = some full' := hfull
    rw [Dict.get?_set] at hset
    split_ifs at hset
    · cases hset
      refine ⟨hframe.1.symm ▸ hclient, fun client' hclient' => ⟨hclient'.symm, fun remote hremote => ?_⟩⟩
      rw [hclient', hframe.1]
      exact hframe.2 remote hremote
    · exact h uuid full' hset
  | events batch =>
    have hsame : (m.handleFrame norm now client (.events batch)).snapshots = m.snapshots :=
      snapshots_handleEventBatch batch
    exact fun uuid full hfull => h uuid full (hsame ▸ hfull)

/-- The loss of a connection keeps what is stored in line with the bridges. -/
theorem Stored.handleDisconnect (h : m.Stored bridges remotes) :
    (m.handleDisconnect norm now client).Stored bridges remotes := by
  intro uuid full hfull
  unfold BridgeV2Manager.handleDisconnect BridgeV2Manager.forgetBridge at hfull
  split_ifs at hfull
  · rw [snapshots_handleEventBatch] at hfull
    exact h uuid full hfull
  · dsimp only at hfull
    rw [snapshots_handleEventBatch, Dict.get?_pop, Option.ite_none_left_eq_some] at hfull
    exact h uuid full hfull.2

/-- A remote whose bridge is lost is shown as lost, as the add-on has told itself. -/
theorem Tracks.handleDisconnect {mac : Text} {p : Option Picture} (haddr : Addressing norm bridges remotes)
    (hmac : mac ∈ remotes) (hclient : client.bridgeMac ∈ bridges) (hrouted : m.Routed bridges remotes)
    (h : m.Tracks norm mac p) : (m.handleDisconnect norm now client).Tracks norm mac
      (Picture.leave client ((m.offlineBatchForBridge now client).foldl (Picture.tell client mac) p)) :=
  (h.handleEventBatch haddr hmac hclient hrouted.offlineBatch).forgetBridge

end BridgeV2Manager

/-! ## The invariant of the hub -/

namespace Hub

variable {norm norm' : Text → Text} {bridges remotes : Set Text} {s : Hub} {mac : Text}

/-- The addresses in the hub are proper, and the add-on and the integration show what they have been told. -/
structure Good (norm norm' : Text → Text) (bridges remotes : Set Text) (s : Hub) : Prop where
  addressed : ∀ c, (s.clients c).connected = true → (s.clients c).bridgeMac ∈ bridges
  routed : s.manager.Routed bridges remotes
  stored : s.manager.Stored bridges remotes
  waits : ∀ c frame, s.waiting c = some frame →
    (s.clients c).connected = true ∧ frame.Proper bridges remotes (s.clients c)
  fed : ∀ q ∈ s.feed, ∀ t ∈ q, t.Proper bridges remotes
  tracks : ∀ mac ∈ remotes, s.manager.Tracks norm mac (Picture.noted mac s.handled)
  shows : ∀ mac ∈ remotes, s.runtime.Tracks norm' mac (Picture.told mac s.seen)

/-- At the start nothing is known. -/
theorem Good.initial (h : Initial s) : Good norm norm' bridges remotes s := by
  obtain ⟨clients, runtime, hclients, rfl⟩ := h
  refine ⟨fun c hc => ?_, ?_, ?_, ?_, ?_, ?_, ?_⟩
  · exact absurd (hclients c ▸ hc : false = true) Bool.false_ne_true
  · rintro k ρ ⟨⟩
  · rintro uuid full ⟨⟩
  · rintro c frame ⟨⟩
  · rintro q ⟨⟩
  · rintro mac - p ⟨⟩
  · rintro mac - p ⟨⟩

/-- What is in the queue afterwards was there, or is the new frame. -/
theorem mem_enqueue {q : List Told} {t t' : Told} (h : t' ∈ enqueue q t) : t' ∈ q ∨ t' = t := by
  unfold enqueue at h
  split_ifs at h
  · exact .inr (List.mem_singleton.mp h)
  · exact (List.mem_append.mp h).imp id List.mem_singleton.mp

/-- What is passed on has proper addresses. -/
theorem Good.pass {t : Told} (ht : t.Proper bridges remotes) (h : Good norm norm' bridges remotes s) :
    Good norm norm' bridges remotes (s.pass t) where
  addressed := h.addressed
  routed := h.routed
  stored := h.stored
  waits := h.waits
  fed q hq t' ht' := by
    obtain ⟨q, hfeed, rfl⟩ := Option.map_eq_some_iff.mp hq
    rcases mem_enqueue ht' with hold | rfl
    · exact h.fed q hfeed t' hold
    · exact ht
  tracks := h.tracks
  shows := h.shows

/-- Another state of a client for which nothing waits. -/
theorem Good.updateClient {c : Nat} (client : Client) (hidle : s.waiting c = none)
    (hclient : client.connected = true → client.bridgeMac ∈ bridges) (h : Good norm norm' bridges remotes s) :
    Good norm norm' bridges remotes { s with clients := Function.update s.clients c client } := by
  refine ⟨fun c' hc' => ?_, h.routed, h.stored, fun c' frame hwait => ?_, h.fed, h.tracks, h.shows⟩
  · by_cases hc : c' = c
    · subst hc
      simp only [Function.update_self] at hc' ⊢
      exact hclient hc'
    · simp only [Function.update_of_ne hc] at hc' ⊢
      exact h.addressed c' hc'
  · have hc : c' ≠ c := by
      rintro rfl
      rw [hidle] at hwait
      cases hwait
    simp only [Function.update_of_ne hc]
    exact h.waits c' frame hwait

/-- Nothing waits for `c` any more. -/
theorem Good.settle (c : Nat) (h : Good norm norm' bridges remotes s) :
    Good norm norm' bridges remotes { s with waiting := Function.update s.waiting c none } where
  addressed := h.addressed
  routed := h.routed
  stored := h.stored
  waits c' frame hwait := by
    by_cases hc : c' = c
    · subst hc
      simp only [Function.update_self] at hwait
      cases hwait
    · simp only [Function.update_of_ne hc] at hwait
      exact h.waits c' frame hwait
  fed := h.fed
  tracks := h.tracks
  shows := h.shows

/-- A client without a connection is not sending receipts. -/
theorem Good.idle {c : Nat} (h : Good norm norm' bridges remotes s) (hc : (s.clients c).connected = false) :
    s.waiting c = none := by
  cases hwait : s.waiting c with
  | none => rfl
  | some frame => exact absurd (hc.symm.trans (h.waits c frame hwait).1) Bool.false_ne_true

section

variable (haddr : Addressing norm bridges remotes)

include haddr

/-- A bridge does not change its address. -/
theorem take_eq {client : Client} {frame : Frame} (hclient : client.bridgeMac ∈ bridges)
    (hframe : frame.Proper bridges remotes client) : client.take norm frame = client := by
  cases frame with
  | snapshot full =>
    have hown : BridgeV2Manager.snapshotBridge norm client full = client.bridgeMac := by
      rw [BridgeV2Manager.snapshotBridge, hframe.1, orElse, if_neg (haddr.bridge_ne_nil _ hclient),
        haddr.norm_bridge _ hclient]
    simp only [Client.take, hown, if_neg (haddr.bridge_ne_nil _ hclient)]
  | events batch => rfl

/-- A frame goes into the picture of the add-on. -/
theorem Good.handle {c : Nat} {frame : Frame} (now : Nat) (hconnected : (s.clients c).connected = true)
    (hframe : frame.Proper bridges remotes (s.clients c)) (h : Good norm norm' bridges remotes s) :
    Good norm norm' bridges remotes { s with
      manager := s.manager.handleFrame norm now (s.clients c) frame
      clients := Function.update s.clients c ((s.clients c).take norm frame)
      handled := s.handled ++ [.told { source := some c, client := s.clients c, frame := frame }] } := by
  have hclient := h.addressed c hconnected
  rw [take_eq haddr hclient hframe, Function.update_eq_self]
  refine ⟨h.addressed, h.routed.handleFrame haddr hclient hframe, h.stored.handleFrame hclient hframe, h.waits, h.fed,
    fun mac hmac => ?_, h.shows⟩
  rw [Picture.noted, List.foldl_append]
  exact (h.tracks mac hmac).handleFrame haddr hmac hclient hframe

/-- The remotes of a bridge go with its connection.  Without a route there is no report of it. -/
theorem Good.disconnect {c : Nat} (now : Nat) {log : List Entry} (hconnected : (s.clients c).connected = true)
    (hlog : log = [.gone (s.clients c)] ∧ s.manager.offlineBatchForBridge now (s.clients c) = [] ∨
      log = [.told ⟨some c, s.clients c, .events (s.manager.offlineBatchForBridge now (s.clients c))⟩,
        .gone (s.clients c)])
    (h : Good norm norm' bridges remotes s) : Good norm norm' bridges remotes { s with
      manager := s.manager.handleDisconnect norm now (s.clients c)
      clients := Function.update s.clients c { s.clients c with connected := false }
      waiting := Function.update s.waiting c none
      handled := s.handled ++ log } := by
  have hclient := h.addressed c hconnected
  have hidle := (h.settle c).updateClient { s.clients c with connected := false } (Function.update_self ..)
    fun h => absurd h Bool.false_ne_true
  refine ⟨hidle.addressed, h.routed.handleDisconnect haddr hclient, h.stored.handleDisconnect, hidle.waits, h.fed,
    fun mac hmac => ?_, h.shows⟩
  have htracks : (s.manager.handleDisconnect norm now (s.clients c)).Tracks norm mac _ :=
    (h.tracks mac hmac).handleDisconnect haddr hmac hclient h.routed
  rw [Picture.noted, List.foldl_append]
  rcases hlog with ⟨rfl, hempty⟩ | rfl
  · rwa [hempty] at htracks
  · exact htracks

/-- The integration begins with the snapshots that the add-on replays to it. -/
theorem Good.join (h : Good norm norm' bridges remotes s) :
    Good norm norm' bridges remotes { s with feed := some (s.manager.replay norm) } where
  addressed := h.addressed
  routed := h.routed
  stored := h.stored
  waits := h.waits
  fed := by
    rintro q ⟨⟩ t ht
    obtain ⟨entry, hentry, rfl⟩ := List.mem_map.mp ht
    obtain ⟨hbridge, hproper⟩ := h.stored entry.1 entry.2 (Dict.mem_entries.mp hentry)
    have hown := haddr.norm_bridge _ hbridge
    exact ⟨hown.symm ▸ hbridge, hproper _ hown⟩
  tracks := h.tracks
  shows := h.shows

/-- The step lemma of the hub. -/
theorem Good.step (haddr' : Addressing norm' bridges remotes) {a : Act} (ha : Admitted bridges remotes s a)
    (h : Good norm norm' bridges remotes s) : Good norm norm' bridges remotes (s.step norm norm' a) := by
  cases a with
  | authenticate c bridgeMac => exact h.updateClient _ (h.idle ha.1) fun _ => ha.2
  | connect c => exact h.updateClient _ (h.idle ha.1) fun _ => ha.2
  | frame c frame now =>
    obtain ⟨hconnected, hidle, hframe⟩ := ha
    have hhandled := h.handle haddr now hconnected hframe
    simp only [Hub.step]
    split_ifs
    · refine ⟨hhandled.addressed, hhandled.routed, hhandled.stored, fun c' frame' hwait => ?_, h.fed, hhandled.tracks,
        h.shows⟩
      dsimp only
      rw [take_eq haddr (h.addressed c hconnected) hframe, Function.update_eq_self]
      by_cases hc : c' = c
      · subst hc
        simp only [Function.update_self] at hwait
        cases hwait
        exact ⟨hconnected, hframe⟩
      · simp only [Function.update_of_ne hc] at hwait
        exact h.waits c' frame' hwait
    · exact hhandled.pass ⟨h.addressed c hconnected, hframe⟩
  | receipts c =>
    simp only [Hub.step]
    split
    · exact h
    next frame hwait =>
      obtain ⟨hconnected, hframe⟩ := h.waits c frame hwait
      exact (h.settle c).pass ⟨h.addressed c hconnected, hframe⟩
  | lost c now =>
    simp only [Hub.step]
    split_ifs with hempty
    · exact h.disconnect haddr now ha (.inl ⟨rfl, hempty⟩)
    · exact (h.disconnect haddr now ha (.inr rfl)).pass ⟨h.addressed c ha, h.routed.offlineBatch⟩
  | join => exact h.join haddr
  | leave =>
    refine ⟨h.addressed, h.routed, h.stored, h.waits, ?_, h.tracks, h.shows⟩
    rintro q ⟨⟩
  | read now =>
    simp only [Hub.step]
    split
    next t rest hfeed =>
      have hall := List.forall_mem_cons.mp (h.fed _ hfeed)
      refine ⟨h.addressed, h.routed, h.stored, h.waits, ?_, h.tracks, fun mac hmac => ?_⟩
      · rintro q ⟨⟩
        exact hall.2
      · rw [Picture.told, List.foldl_append]
        exact (h.shows mac hmac).handleFrame haddr' hall.1.1 hall.1.2
    next => exact h
  | restart runtime =>
    refine ⟨h.addressed, h.routed, h.stored, h.waits, h.fed, h.tracks, ?_⟩
    rintro mac - p ⟨⟩

end

/-- A bridge with one remote. -/
def firstSnapshot : FullSnapshot :=
  { bridgeMac := macColonString (Octets.fit 6 [1])
    uptimeS := 60
    remotes := [{
      identity := { remoteMac := macColonString (Octets.fit 6 [2]) }
      runtime := { online := true, hopsToBridge := 1, rssi := -50, sessionId := ['s'], lastTxCounter := 3 } }] }

/-- The integration joins, and it reads the first snapshot of a bridge. -/
def firstRead : Hub :=
  runFrom (step (normalizeMac (List.map Char.toUpper)) (normMac (List.map Char.toUpper)))
    { clients := fun _ => { bridgeUuid := ['u'] } }
    [.authenticate 0 (macColonString (Octets.fit 6 [1])), .connect 0, .join, .frame 0 (.snapshot firstSnapshot) 1000,
      .read 1001]

/-- What it tells of the remote. -/
def firstPicture : Picture :=
  { bridgeUuid := ['u'], describedBy := macColonString (Octets.fit 6 [1]),
    bridgeMac := macColonString (Octets.fit 6 [1]), sessionId := ['s'], txCounter := 3, online := true, parentMac := [],
    hops := 1, rssi := -50, uptimeS := 0 }

theorem firstMacs_ne : ∀ r ∈ ({Octets.fit 6 [2]} : Set Mac), ∀ b ∈ ({Octets.fit 6 [1]} : Set Mac),
    macColonString r ≠ macColonString b := by
  rintro r rfl b rfl
  decide

/-- The run of the example disturbs no client. -/
theorem firstRead_reachable : Reachable Initial
    (Undisturbed (macColonString '' {Octets.fit 6 [1]}) (macColonString '' {Octets.fit 6 [2]}))
    (step (normalizeMac (List.map Char.toUpper)) (normMac (List.map Char.toUpper))) firstRead := by
  have hbridge : macColonString (Octets.fit 6 [1]) ∈ macColonString '' ({Octets.fit 6 [1]} : Set Mac) := ⟨_, rfl, rfl⟩
  have hremote : macColonString (Octets.fit 6 [2]) ∈ macColonString '' ({Octets.fit 6 [2]} : Set Mac) := ⟨_, rfl, rfl⟩
  refine .runFrom (.start ⟨_, _, fun _ => rfl, rfl⟩)
    ⟨⟨⟨rfl, hbridge⟩, ?_⟩, ⟨⟨rfl, hbridge⟩, ?_⟩, ⟨trivial, ?_⟩, ⟨⟨rfl, rfl, rfl, ?_⟩, ?_⟩, ⟨trivial, ?_⟩, trivial⟩
  case refine_4 =>
    intro remote hr
    rw [List.mem_singleton.mp hr]
    exact ⟨hremote, .inl rfl⟩
  all_goals rintro c now ⟨⟩

end Hub

end EspTree.Integration
