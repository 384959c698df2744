import EspTree.Bridge.Buffers
import EspTree.Remote.Buffers

/-!
# Reserved bytes over whole runs

As long as every fragment opens well, the counters of the bridge and of the leaf are the sums over
their maps, and no message is refused for longer than it takes the buffers to expire.

`Accounts` says of one end that each counter is the sum of what the buffers in its map have
reserved, that each of these buffers is in use, and that a message whose parts fit a slot is taken
once the buffers have been quiet for as long as it takes them to expire.

The condition is `FragmentsOpen`: a fragment that opens a buffer gets its space.
`firstOfFive_not_accounted` is a run in which it does not hold.  The fragment does not get its space,
and the buffer that was made for it stays in the map without ever being in use, so that it does not
expire.
-/

namespace EspTree

open Wire

namespace Bridge

/-- The books of a session: both counters are right. -/
structure Session.Accounts (x : Session) : Prop where
  state : Accounted true x.limits x.stateAssemblies x.stateReservedBytes Env.now fun e =>
    ((x.prune e).stateAssemblies, (x.prune e).stateReservedBytes)
  schema : Accounted true x.limits x.schemaAssemblies x.schemaReservedBytes Env.now fun e =>
    ((x.prune e).schemaAssemblies, (x.prune e).schemaReservedBytes)

/-- Books that are in order are all that a session has to account for. -/
theorem Buffers.Books.accounts {x : Session} (h : x.buffers.Books) : x.Accounts := by
  refine ⟨⟨h.state.total, h.state.active, fun e view base htakes hquiet => ?_⟩,
    ⟨h.schema.total, h.schema.active, fun e view base htakes hquiet => ?_⟩⟩
  · exact h.state.taken true base h.valid htakes hquiet
  · have hpruned := (h.prune (e := e)).schema.total
    have htaken := h.schema.taken true base h.valid htakes hquiet
    have hsame : (x.prune e).schemaReservedBytes = x.schemaReservedBytes -
        UInt32.ofNat (Assemblies.bytes (x.schemaAssemblies.filter fun p => p.2.expired e.now)) :=
      UInt32.toNat_inj.1 (hpruned.trans (h.schema.drop fun p => p.2.expired e.now).total.symm)
    dsimp only
    rw [hsame]
    exact htaken

end Bridge

/-- The counter of a leaf is right. -/
def Remote.Accounts {η : Type} (s : Remote η) : Prop :=
  Accounted false s.session.limits s.commands.pendingAssemblies s.commands.pendingReservedBytes
    Remote.Env.now fun e => ((s.prunePendingCommandFragments e).commands.pendingAssemblies,
      (s.prunePendingCommandFragments e).commands.pendingReservedBytes)

theorem Remote.Balanced.accounts {η : Type} {s : Remote η} (h : s.Balanced) : s.Accounts :=
  ⟨h.ledger.total, h.ledger.active, fun _ _ base htakes hquiet => h.ledger.taken false base h.valid htakes hquiet⟩

/-- In every run in which all fragments open well, the reserved bytes of the bridge's sessions and
of the leaf are those of the assemblies that are going on: an assembly that ends gives back what it
has reserved.  A fragment that does not get the space it asks for has reserved it before it is
refused. -/
theorem fragments_accounted {η : Type} (c : Crypto) (P : Remote.Platform η) :
    (∀ b, Transition.Reachable Bridge.Init (Bridge.FragmentsOpen c) (Bridge.call c) b →
      ∀ x, b.session? = some x → x.Accounts) ∧
    ∀ s, Transition.Reachable Remote.Registered (Remote.FragmentsOpen P) (Remote.call P) s →
      s.Accounts := by
  constructor
  · intro b hb x hx
    refine Bridge.Buffers.Books.accounts (Transition.Reachable.invariant (I := Bridge.Balanced) ?_ ?_ hb x hx)
    · intro b hinit x hx
      cases hinit.session.symm.trans hx
    · exact fun b k hbalanced hok => hbalanced.call hok
  · intro s hs
    refine Remote.Balanced.accounts (Transition.Reachable.invariant (I := Remote.Balanced) ?_ ?_ hs)
    · exact fun s hregistered => hregistered.balanced
    · exact fun s c hbalanced hok => hbalanced.call hok

namespace Bridge

theorem fragmentsOpen_of {b : Bridge} {e : Env} {senderMac : Mac} {data : Bytes} {rssi : Int}
    (h : b.session?.all (fun x => (parsePacket .sample data).all fun f =>
      ((validateSessionPacket .sample x f).bind EntityPayload.parse).all fun view =>
        decide (OpensWell x.limits x.stateAssemblies x.stateReservedBytes view (messageBase f view)) &&
        decide (OpensWell x.limits x.schemaAssemblies x.schemaReservedBytes view (messageBase f view))) =
      true) : b.FragmentsOpen .sample (.frame e senderMac data rssi) := by
  intro x f view hbrings
  rw [hbrings.session, Option.all_some, hbrings.parsed, Option.all_some, hbrings.opened,
    Option.all_some, Bool.and_eq_true, decide_eq_true_eq, decide_eq_true_eq] at h
  exact ⟨fun _ _ _ => h.1, fun _ _ => h.2⟩

/-- The first of two fragments of a state. -/
def firstOfTwo : Call := receives 1300 (sealedFrom .state 1 4 (EntityPayload.bytes ⟨0, 0, 0, 2, [1]⟩))

/-- The first of five fragments, which do not fit a buffer. -/
def firstOfFive : Call := receives 1300 (sealedFrom .state 1 4 (EntityPayload.bytes ⟨0, 0, 0, 5, [1]⟩))

/-- A state of two fragments has reserved its 440 bytes. -/
theorem firstOfTwo_accounted : ∀ x, (joined.call .sample firstOfTwo).session? = some x →
    x.Accounts ∧ x.stateReservedBytes = 440 := by
  intro x hx
  refine ⟨(fragments_accounted .sample Remote.Platform.sample).1 _ (.next ?_ ?_) x hx, ?_⟩
  · refine Transition.Reachable.runFrom (.start sample_init) ⟨?_, ?_, ?_, trivial⟩
    · exact fragmentsOpen_of (by decide +kernel)
    · exact fragmentsOpen_of (by decide +kernel)
    · exact fragmentsOpen_of (by decide +kernel)
  · exact fragmentsOpen_of (by decide +kernel)
  · have hreserved : (joined.call .sample firstOfTwo).session?.all
        (fun x => x.stateReservedBytes == 440) = true := by decide +kernel
    rw [hx] at hreserved
    simpa using hreserved

/-- A state of five fragments leaves a buffer that is never dropped. -/
theorem firstOfFive_not_accounted : ¬∀ b, Transition.Reachable Init (fun _ _ => True) (call .sample) b →
    ∀ x, b.session? = some x → x.Accounts := by
  intro hall
  have hsession : (joined.call .sample firstOfFive).session?.any
      (fun x => x.stateAssemblies.any fun p => !p.2.active) = true := by decide +kernel
  obtain ⟨x, hx, hinactive⟩ := (Option.any_eq_true _ _).1 hsession
  obtain ⟨p, hp, hpinactive⟩ := List.any_eq_true.1 hinactive
  have haccounts := hall _ (.next joined_reachable trivial) x hx
  rw [haccounts.state.active p hp] at hpinactive
  cases hpinactive

end Bridge

end EspTree
