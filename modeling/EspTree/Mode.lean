import EspTree.StateSync

/-!
# The modes of a leaf

A leaf keeps its mode in separate flags, which about ten handlers write one by one.  A normal leaf
should be joined, hold a session key and have a parent, a leaf that relays should be normal, and
one that waits for the ACK of a `STATE` message should be joined.

`handle_join_ack_` breaks the first of these: a `JOIN_ACK` that tells the leaf to wait invalidates
the key of a leaf that has joined before and leaves it joined.  Every other path that gives the key
up ends the session with it.
-/

namespace EspTree

open Wire FileReceiver

namespace Remote

variable {η : Type}

/-- The flags of a leaf fit together. -/
structure Consistent (s : Remote η) : Prop where
  normal : s.session.normal → s.session.joined ∧ s.session.sessionKeyValid ∧ s.route.parentValid
  relay : s.route.canRelay → s.session.normal
  waiting : s.entities.waitingForStateAck → s.session.joined

/-- The invariant that carries `Consistent`: a joined leaf has a key, whether it is normal or looks
for a parent to resume its session. -/
structure Modes (s : Remote η) : Prop where
  flags : s.Flags
  keyed : s.session.joined → s.session.sessionKeyValid
  parent : s.session.normal → s.route.parentValid
  relay : s.route.canRelay → s.session.normal
  waiting : s.entities.waitingForStateAck → s.session.joined

theorem Modes.consistent {s : Remote η} (h : s.Modes) : s.Consistent where
  normal hnormal := ⟨h.flags.normal hnormal, h.keyed (h.flags.normal hnormal), h.parent hnormal⟩
  relay := h.relay
  waiting := h.waiting

/-- No joined leaf is told to wait. -/
def NotToldToWait (P : Platform η) (s : Remote η) (c : Call) : Prop :=
  s.session.joined → ∀ f, c.frame? = some f → ¬ s.ToldToWait P f

section

variable {P : Platform η} {c : Call} {s₀ s t : Remote η}

/-- Every move of a leaf keeps the flags together, but for the one that `NotToldToWait` excludes. -/
theorem Modes.move (hok : s₀.NotToldToWait P c) (h : s.Modes) (hmove : Move P c s₀ s t) :
    t.Modes := by
  have hflags := h.flags.move hmove
  cases hmove with
  | route r _ hvalid _ hrelay =>
    refine ⟨hflags, h.keyed, fun hn => hvalid.trans (h.parent hn), fun hr => ?_, h.waiting⟩
    exact (hrelay hr).elim h.relay id
  | take => exact ⟨hflags, h.keyed, fun _ => rfl, h.relay, h.waiting⟩
  | resume hdisc hresume hparent =>
    have hkeyed := h.keyed (h.flags.resuming hdisc (.inl hresume))
    exact ⟨hflags, fun _ => hkeyed, fun _ => hparent, fun _ => rfl, fun _ => rfl⟩
  | complete => exact ⟨hflags, h.keyed, fun _ => rfl, fun _ => rfl, h.waiting⟩
  | clear preserveRoute =>
    exact ⟨hflags, nofun, nofun, fun hr => refreshCanRelay_normal hr, nofun⟩
  | notNormal =>
    exact ⟨hflags, h.keyed, nofun, fun hr => refreshCanRelay_normal hr, h.waiting⟩
  | invalidate f hf hwait hsame =>
    -- the leaf has not joined, so it has no mode to lose
    refine ⟨hflags, fun hj => ?_, h.parent, h.relay, h.waiting⟩
    rw [hsame] at hj
    exact absurd hwait (hok hj f hf)
  | accept => exact ⟨hflags, fun _ => rfl, h.parent, h.relay, fun _ => rfl⟩
  | entities x _ hwait =>
    exact ⟨hflags, h.keyed, h.parent, h.relay, fun hw => h.waiting (hwait hw).1⟩
  | push _ _ _ _ _ hjoined => exact ⟨hflags, h.keyed, h.parent, h.relay, fun _ => hjoined⟩
  | stateAcked => exact ⟨hflags, h.keyed, h.parent, h.relay, nofun⟩
  | _ => exact ⟨hflags, h.keyed, h.parent, h.relay, h.waiting⟩

theorem Registered.modes (h : s.Registered) : s.Modes := by
  induction h with
  | fresh config files settings =>
    exact ⟨⟨nofun, fun _ hr => hr.elim nofun nofun⟩, nofun, nofun, nofun, nofun⟩
  | register _ _ type name unit options id ih =>
    exact ⟨⟨ih.flags.normal, ih.flags.resuming⟩, ih.keyed, ih.parent, ih.relay, ih.waiting⟩

/-- The states of the runs in which no joined leaf is told to wait. -/
abbrev ModeReachable (P : Platform η) : Remote η → Prop :=
  Transition.Reachable Registered (NotToldToWait P) (call P)

/-- The invariant holds in every state of a run. -/
theorem ModeReachable.modes (h : ModeReachable P s) : s.Modes :=
  Transition.Reachable.invariant (I := Modes) (fun _ hr => hr.modes)
    (fun _ _ hs hok => call_invariant (fun _ _ ht hmove => ht.move hok hmove) hs) h

end

/-- In every run in which no joined leaf is told to wait, the flags fit together in every state: a
leaf that is normal is joined, has a key and a valid parent, only such a leaf relays, and only a
joined one waits for an ACK. The answer that tells a leaf to wait takes its key and leaves `joined_`
as it is. -/
theorem flags_consistent (P : Platform η) (s : Remote η) (h : ModeReachable P s) : s.Consistent :=
  h.modes.consistent

/-! ## A joined leaf is told to wait -/

/-- A frame of another type than `JOIN_ACK` meets the condition. -/
theorem notToldToWait_frame {P : Platform η} {s : Remote η} {e : Env} {mac : Mac} {data : Bytes}
    {rssi : Int} (h : (parseFrame data).all (fun f => f.type? != some .joinAck)) :
    s.NotToldToWait P (.frame e mac data rssi) := by
  intro _ f hparse hwait
  rw [show parseFrame data = some f from hparse, Option.all_some, hwait.type] at h
  cases h

/-- The leaf with one sensor has joined and is normal. -/
def normalLeaf : Remote Unit := Transition.runFrom (call .sample) sensorLeaf pushCalls

theorem normalLeaf_reachable : ModeReachable .sample normalLeaf := by
  have hstart : ModeReachable .sample sensorLeaf :=
    .start (.register (.fresh _ _ {}) (by decide) 0 [] [] [] [])
  have hloop (s : Remote Unit) (e : Env) : s.NotToldToWait .sample (.loop e) :=
    nofun
  refine hstart.runFrom ⟨nofun, hloop _ _, hloop _ _, ?_, hloop _ _, hloop _ _, ?_,
    hloop _ _, trivial⟩
  · exact notToldToWait_frame (by decide +kernel)
  · exact fun hjoined => absurd hjoined (by decide +kernel)

/-- A relay that has joined, is normal and waits for the ACK of a state. -/
theorem flags_consistent_normalLeaf :
    normalLeaf.session.normal ∧ normalLeaf.route.canRelay ∧
      normalLeaf.entities.waitingForStateAck ∧ normalLeaf.Consistent :=
  ⟨by decide +kernel, by decide +kernel, by decide +kernel,
    flags_consistent .sample normalLeaf normalLeaf_reachable⟩

/-- A `JOIN_ACK` that tells the leaf to wait. -/
def waitCall (txCounter : UInt32) : Call :=
  .frame (.quiet 90 (Octets.zero 16)) hubMac
    (plain .sample sensorMac .joinAck (hopsMake hopsDirBit 0) txCounter none
      (JoinAck.bytes ⟨0, joinReasonWait, 0, Octets.zero 16, 0⟩)).bytes (-50)

/-- The normal leaf is told to wait. -/
def waitingLeaf : Remote Unit :=
  Transition.runFrom (call .sample) sensorLeaf (pushCalls ++ [waitCall 2])

/-- It stays normal, without a key. -/
theorem flags_inconsistent_waitingLeaf :
    Transition.Reachable Registered (fun _ _ => True) (call .sample) waitingLeaf ∧
      waitingLeaf.session.normal ∧ waitingLeaf.session.sessionKeyValid = false ∧
      ¬ waitingLeaf.Consistent := by
  have hnormal : waitingLeaf.session.normal := by decide +kernel
  have hinvalid : waitingLeaf.session.sessionKeyValid = false := by decide +kernel
  refine ⟨?_, hnormal, hinvalid, fun h => ?_⟩
  · have hstart : Transition.Reachable Registered (fun _ _ => True) (call .sample) sensorLeaf :=
      .start (.register (.fresh _ _ {}) (by decide) 0 [] [] [] [])
    exact hstart.runFrom (by simp [Transition.Admits, pushCalls, discoverCalls])
  · exact Bool.false_ne_true (hinvalid.symm.trans (h.normal hnormal).2.1)

end Remote

end EspTree
