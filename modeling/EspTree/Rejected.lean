import EspTree.Bridge.Moves

/-!
# Frames that are not accepted

What `on_espnow_frame` does to a session before it knows whether the frame is authentic.  A
`SCHEMA_PUSH` that is rejected changes nothing.  For `STATE`, `HEARTBEAT` and `ACK` the dispatcher
writes the next hop, the signal strength, the packet counter and the hop count first, so that with
a valid session key every rejected frame leaves a trace (`rejected_unchanged_iff`).

`Unchanged` compares the part of the session that is `watched` and what was published of the leaf's
availability.  `Rejected` says that the frame fails the session tag or the check of its counter.

`rejected_unchanged_iff` is exact for every state and every type.  Nothing changes for a
`SCHEMA_PUSH`, for a frame with another parent in its extension, and for a bridge without a session;
otherwise only if the key of the session is not valid and the sender and the signal are those that
are noted already.
-/

namespace EspTree

open Wire

namespace Bridge

/-- The fields of a session that a rejected frame should leave alone. -/
structure Watched where
  nextHopMac : Mac
  hopsToBridge : UInt8
  lastRssi : Int
  rxPackets : UInt32
  lastSeenCounter : UInt32
  online : Bool
  remoteState : RemoteState
  stateAssemblies : Assemblies
  schemaAssemblies : Assemblies

def Session.watched (x : Session) : Watched :=
  ⟨x.link.nextHopMac, x.link.hopsToBridge, x.link.lastRssi, x.link.rxPackets, x.lastSeenCounter,
    x.online, x.remoteState, x.stateAssemblies, x.schemaAssemblies⟩

/-- What was passed to `publish_availability_fn_`, newest first. -/
def availabilities (effects : List Effect) : List (Bool × Reason) :=
  effects.filterMap fun
    | .availability online reason => some (online, reason)
    | _ => none

/-- The session and the published availability are as they were. -/
def Unchanged (b b' : Bridge) : Prop :=
  b'.session?.map Session.watched = b.session?.map Session.watched ∧
    availabilities b'.hub.effects = availabilities b.hub.effects

/-- The frame fails the session tag, or the counter check of its handler. -/
def Rejected (c : Crypto) (x : Session) (f : Frame) : Prop :=
  validateSessionPacket c x f = none ∨
    (f.type? ≠ some .state ∧ ¬ counterIsNewer f.header.txCounter x.lastSeenCounter)

/-- The types of the frames that a session validates. -/
def isSessionFrame (f : Frame) : Prop :=
  f.type? = some .state ∨ f.type? = some .heartbeat ∨ f.type? = some .ack ∨
    f.type? = some .schemaPush

/-- The frame is a `SCHEMA_PUSH`, is for another parent, or comes for a session without key over
the path that the session knows already. -/
def Undisturbed (b : Bridge) (senderMac : Mac) (f : Frame) (rssi : Int) : Prop :=
  f.type? = some .schemaPush ∨
    f.parentMac.all (fun m => m == Octets.zero 6 || m == b.hub.config.bridgeMac) = false ∨
    ∀ x, b.session? = some x →
      x.sessionKeyValid = false ∧ senderMac = x.link.nextHopMac ∧ rssi = x.link.lastRssi

section

variable {c : Crypto} {e : Env} {b : Bridge} {h : Hub} {x : Session} {senderMac : Mac}
  {data : Bytes} {rssi : Int} {f : Frame}

/-! ## The handlers -/

/-- The handlers leave everything as it is when they reject a frame; this is the one that is called
before anything is written. -/
theorem handleSchemaPush_rejected (hrejected : Rejected c x f) :
    handleSchemaPush c e h x senderMac f = (h, x, false) := by
  unfold handleSchemaPush
  split
  · rfl
  · next hnew =>
    rcases hrejected with hopen | ⟨-, hold⟩
    · rw [hopen]
      rfl
    · exact absurd hold hnew

theorem handleHeartbeat_rejected (hrejected : Rejected c x f) :
    handleHeartbeat c e h x senderMac f rssi = (h, x, false) := by
  unfold handleHeartbeat
  split
  · rfl
  · split
    · rfl
    · next hnew =>
      rcases hrejected with hopen | ⟨-, hold⟩
      · rw [hopen]
      · exact absurd hold hnew

theorem handleAck_rejected (hrejected : Rejected c x f) :
    handleAck c e h x f rssi = (h, x, false) := by
  unfold handleAck
  split
  · rfl
  · split
    · rfl
    · next hnew =>
      rcases hrejected with hopen | ⟨-, hold⟩
      · rw [hopen]
      · exact absurd hold hnew

/-- A `STATE` that fails its tag is answered with a `DEAUTH`. -/
theorem handleState_rejected (hvalid : x.sessionKeyValid) (htype : f.type? = some .state)
    (hrejected : Rejected c x f) :
    (handleState c e h x senderMac f rssi).2.1 = x.bumpTxCounter := by
  have hopen : validateSessionPacket c x f = none := by
    rcases hrejected with hopen | ⟨hstate, -⟩
    · exact hopen
    · exact absurd htype hstate
  unfold handleState
  rw [if_neg (not_not.mpr hvalid), hopen]
  rfl

/-! ## The dispatcher -/

/-- Counting a packet always changes the counter, also when it wraps. -/
theorem counter_succ_ne (n : UInt32) : n + 1 ≠ n := by grind

/-- With a valid key every frame is counted. -/
theorem rxPackets_of_valid (e : Env) (senderMac : Mac) (rssi : Int)
    (hsession : b.session? = some x) (hvalid : x.sessionKeyValid)
    (htype : f.type? = some .state ∨ f.type? = some .heartbeat ∨ f.type? = some .ack)
    (hrejected : Rejected c x f) (len : Nat) :
    ∃ y, (b.onSessionFrame c e senderMac f len rssi).1.session? = some y ∧
      y.link.rxPackets = x.link.rxPackets + 1 := by
  have hvalid' : ¬ ¬ (x.heardFrom senderMac rssi).sessionKeyValid := not_not.mpr hvalid
  unfold onSessionFrame
  rw [hsession]
  dsimp only
  rw [if_neg hvalid']
  have hnoted : (noteHops b.hub (x.heardFrom senderMac rssi).countPacket f).2.core = x.core ∧
      (noteHops b.hub (x.heardFrom senderMac rssi).countPacket f).2.link.rxPackets =
        x.link.rxPackets + 1 := by
    unfold noteHops
    dsimp only
    split <;> exact ⟨rfl, rfl⟩
  generalize noteHops b.hub (x.heardFrom senderMac rssi).countPacket f = o at hnoted
  obtain ⟨h, y⟩ := o
  obtain ⟨hcore, hcount⟩ := hnoted
  have hyvalid : y.sessionKeyValid := (congrArg Core.sessionKeyValid hcore).trans hvalid
  have hyrejected : Rejected c y f := by
    rcases hrejected with hopen | ⟨hstate, hold⟩
    · exact .inl ((validateSessionPacket_congr hcore f).trans hopen)
    · refine .inr ⟨hstate, ?_⟩
      rw [show y.lastSeenCounter = x.lastSeenCounter from congrArg Core.lastSeenCounter hcore]
      exact hold
  dsimp only
  split
  · exact ⟨y, rfl, hcount⟩
  · rcases htype with htype | htype | htype <;> rw [htype] <;> dsimp only
    · refine ⟨y.bumpTxCounter, ?_, hcount⟩
      exact congrArg some (handleState_rejected hyvalid htype hyrejected)
    · rw [handleHeartbeat_rejected hyrejected]
      exact ⟨y, rfl, hcount⟩
    · rw [handleAck_rejected hyrejected]
      exact ⟨y, rfl, hcount⟩

/-- Without a key the leaf is told to rejoin, over the path that the frame came from. -/
theorem watched_of_invalid (hsession : b.session? = some x) (hvalid : x.sessionKeyValid = false)
    (len : Nat) :
    Unchanged b (b.onSessionFrame c e senderMac f len rssi).1 ↔
      senderMac = x.link.nextHopMac ∧ rssi = x.link.lastRssi := by
  have hvalid' : ¬ (x.heardFrom senderMac rssi).sessionKeyValid := by
    change ¬ x.sessionKeyValid = true
    rw [hvalid]
    exact Bool.false_ne_true
  unfold onSessionFrame
  rw [hsession]
  dsimp only
  rw [if_pos hvalid']
  constructor
  · rintro ⟨hwatched, -⟩
    rw [hsession] at hwatched
    have hsame := Option.some.inj hwatched
    exact ⟨congrArg Watched.nextHopMac hsame, congrArg Watched.lastRssi hsame⟩
  · rintro ⟨rfl, rfl⟩
    refine ⟨?_, rfl⟩
    rw [hsession]
    rfl

end

/-- A rejected frame leaves the session and the published availability as they were exactly when it
is undisturbed.  What disturbs it is written by `on_frame` before the handlers look at the frame: the
sender, the signal, the hop count and the number of packets. -/
theorem rejected_unchanged_iff (c : Crypto) (e : Env) (b : Bridge) (senderMac : Mac) (data : Bytes)
    (rssi : Int) (f : Frame) (hparsed : parsePacket c data = some f)
    (hmac : f.header.leafMac = b.leafMac) (htype : isSessionFrame f)
    (hrejected : ∀ x, b.session? = some x → Rejected c x f) :
    Unchanged b (b.call c (.frame e senderMac data rssi)) ↔ Undisturbed b senderMac f rssi := by
  simp only [call, onEspnowFrame, hparsed, hmac, if_true]
  unfold onFrame
  cases hparent : f.parentMac.all (fun m => m == Octets.zero 6 || m == b.hub.config.bridgeMac) with
  | false =>
    rw [if_pos Bool.false_ne_true]
    exact ⟨fun _ => .inr (.inl hparent), fun _ => ⟨rfl, rfl⟩⟩
  | true =>
    rw [if_neg (not_not.mpr rfl)]
    by_cases hpush : f.type? = some .schemaPush
    · rw [hpush]
      dsimp only
      refine ⟨fun _ => .inl hpush, fun _ => ?_⟩
      split
      · exact ⟨rfl, rfl⟩
      · next x hx =>
        rw [handleSchemaPush_rejected (hrejected x hx)]
        exact ⟨congrArg (Option.map Session.watched) hx.symm, rfl⟩
    · have hkind : f.type? = some .state ∨ f.type? = some .heartbeat ∨ f.type? = some .ack := by
        rcases htype with htype | htype | htype | htype
        · exact .inl htype
        · exact .inr (.inl htype)
        · exact .inr (.inr htype)
        · exact absurd htype hpush
      have hgoal : Unchanged b (b.onSessionFrame c e senderMac f data.length rssi).1 ↔
          Undisturbed b senderMac f rssi := by
        cases hsession : b.session? with
        | none =>
          have hleft : Unchanged b (b.onSessionFrame c e senderMac f data.length rssi).1 := by
            constructor
            · unfold onSessionFrame
              rw [hsession]
            · unfold onSessionFrame
              rw [hsession]
              rfl
          refine ⟨fun _ => .inr (.inr fun x hx => ?_), fun _ => hleft⟩
          cases hsession.symm.trans hx
        | some x =>
          cases hvalid : x.sessionKeyValid with
          | false =>
            rw [watched_of_invalid hsession hvalid]
            constructor
            · intro hsame
              refine .inr (.inr fun y hy => ?_)
              cases hsession.symm.trans hy
              exact ⟨hvalid, hsame⟩
            · rintro (hpush' | hother | hsame)
              · exact absurd hpush' hpush
              · rw [hparent] at hother
                cases hother
              · exact (hsame x hsession).2
          | true =>
            obtain ⟨y, hy, hcount⟩ := rxPackets_of_valid e senderMac rssi hsession hvalid hkind
              (hrejected x hsession) data.length
            constructor
            · rintro ⟨hwatched, -⟩
              rw [hy, hsession] at hwatched
              have hsame : y.link.rxPackets = x.link.rxPackets :=
                congrArg Watched.rxPackets (Option.some.inj hwatched)
              exact absurd (hcount.symm.trans hsame) (counter_succ_ne _)
            · rintro (hpush' | hother | hsame)
              · exact absurd hpush' hpush
              · rw [hparent] at hother
                cases hother
              · cases (hsame x hsession).1.symm.trans hvalid
      rcases hkind with hkind | hkind | hkind <;> rw [hkind] <;> exact hgoal

/-- The hypotheses on a frame, as they are evaluated on a concrete state. -/
theorem rejected_of (c : Crypto) (b : Bridge) (data : Bytes) (type : PacketType)
    (hframe : (parsePacket c data).any fun f => decide (f.header.leafMac = b.leafMac) &&
      decide (f.type? = some type) && b.session?.all fun x => decide (f.type? ≠ some .state) &&
        !counterIsNewer f.header.txCounter x.lastSeenCounter) :
    ∃ f, parsePacket c data = some f ∧ f.header.leafMac = b.leafMac ∧ f.type? = some type ∧
      ∀ x, b.session? = some x → Rejected c x f := by
  obtain ⟨f, hf, hall⟩ := (Option.any_eq_true _ _).mp hframe
  rw [Bool.and_eq_true, Bool.and_eq_true] at hall
  obtain ⟨⟨hmac, htype⟩, hold⟩ := hall
  refine ⟨f, hf, of_decide_eq_true hmac, of_decide_eq_true htype, fun x hx => .inr ?_⟩
  rw [hx, Option.all_some, Bool.and_eq_true] at hold
  exact ⟨of_decide_eq_true hold.1, by simpa using hold.2⟩

/-- A schema push of the joined leaf comes in again. -/
theorem rejected_unchanged_schemaPush :
    Unchanged joined (joined.call .sample (receives 1300 (sealedFrom .schemaPush 1 2 identityPush))) := by
  obtain ⟨f, hf, hmac, htype, hrejected⟩ := rejected_of .sample joined
    (sealedFrom .schemaPush 1 2 identityPush) .schemaPush (by decide +kernel)
  exact (rejected_unchanged_iff .sample (sampleEnv 1300) joined sample.leafMac _ (-50) f hf hmac
    (.inr (.inr (.inr htype))) hrejected).mpr (.inl htype)

/-- A heartbeat of the joined leaf comes in again, from another node. -/
def hijacked : Bridge :=
  joined.call .sample (.frame (sampleEnv 1300) (Octets.fit 6 [5]) (heartbeatFrom 1 3) (-50))

/-- It is not accepted, and the bridge sends to the other node from then on. -/
theorem rejected_changes_hijacked :
    Transition.Reachable Init (fun _ _ => True) (call .sample) joined ∧
      (∃ f, parsePacket .sample (heartbeatFrom 1 3) = some f ∧ f.header.leafMac = joined.leafMac ∧
        f.type? = some .heartbeat ∧ ∀ x, joined.session? = some x → Rejected .sample x f) ∧
      ¬ Unchanged joined hijacked := by
  refine ⟨joined_reachable, rejected_of _ _ _ _ (by decide +kernel), ?_⟩
  rintro ⟨hwatched, -⟩
  have hsame := congrArg (Option.map Watched.nextHopMac) hwatched
  rw [Option.map_map, Option.map_map] at hsame
  have hmoved : hijacked.session?.map (Watched.nextHopMac ∘ Session.watched) ≠
      joined.session?.map (Watched.nextHopMac ∘ Session.watched) := by decide +kernel
  exact hmoved hsame

end Bridge

end EspTree
