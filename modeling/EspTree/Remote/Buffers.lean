import EspTree.Remote.Moves
import EspTree.Reservation

/-!
# The leaf: command buffers

The buffers of `COMMAND` fragments and their counter over runs.  A frame of another type never
touches the buffers but to clear them, so the moves decide that case; a `COMMAND` is followed through
its handler.

`Balanced` says that the counter of the leaf is the sum over its buffers and that each buffer has
its bytes, in the terms of `Reservation`.  `Balanced.call` is the step lemma and
`Registered.balanced` that a new leaf is balanced, so that the run lemma follows from both.

A fragment may open a buffer, fill one that is open, or complete one.  The condition under which the
books stay in order is about the first case only: the space must have been granted
(`FragmentsOpen`).
-/

namespace EspTree

open Wire FileReceiver

namespace Remote

variable {η : Type}

/-- A fragment of a command passes the checks before it is stored. -/
structure BringsFragment (P : Platform η) (s : Remote η) (data : Bytes) (f : Frame)
    (command : EntityPayload) (record : EntityRecord) : Prop where
  parsed : parseFrame data = some f
  type : f.type? = some .command
  passes : s.Passes P f
  size : data.length ≤ s.session.sessionMaxPayload
  leafMac : f.header.leafMac = s.config.leafMac
  joined : s.session.joined
  opened : (s.openFrame P f).bind EntityPayload.parse = some command
  entity : s.entities.records[command.entityIndex.toNat]? = some record
  newer : counterIsNewer (fragmentMessageTxBase f.header.txCounter command)
    record.lastCompletedCommandMessageTxBase

/-- A fragment that comes to the buffers opens well. -/
def FragmentsOpen (P : Platform η) (s : Remote η) : Call → Prop
  | .frame _ _ data _ => ∀ f command record, BringsFragment P s data f command record →
      OpensWell s.session.limits s.commands.pendingAssemblies s.commands.pendingReservedBytes command
        (fragmentMessageTxBase f.header.txCounter command)
  | _ => True

/-- The books of the commands are in order. -/
structure Balanced (s : Remote η) : Prop where
  valid : s.session.limits.Valid
  ledger : Ledger s.commands.pendingAssemblies s.commands.pendingReservedBytes

section

variable {P : Platform η} {e : Env} {s t : Remote η} {c : Call}

theorem Balanced.congr (h : s.Balanced) (hsession : t.session = s.session)
    (hcommands : t.commands = s.commands) : t.Balanced :=
  ⟨hsession ▸ h.valid, hcommands ▸ h.ledger⟩

/-! ## Other frames -/

/-- A move that is not made for a command clears the buffers or leaves them. -/
theorem Balanced.move {s₀ : Remote η} (h : s.Balanced)
    (hother : ∀ f, c.frame? = some f → f.type? ≠ some .command) (hmove : Move P c s₀ s t) :
    t.Balanced := by
  cases hmove with
  | accept f =>
    refine ⟨.ofMtu ?_, h.ledger⟩
    split
    · exact .inr rfl
    · exact .inl rfl
  | clear => exact ⟨h.valid, .empty⟩
  | expire e => exact ⟨h.valid, h.ledger.drop fun p => p.2.expired e.now⟩
  | store e f command plaintext hf htype => exact absurd htype (hother f hf)
  | command f command plaintext record a hf htype => exact absurd htype (hother f hf)
  | _ => exact ⟨h.valid, h.ledger⟩

/-! ## Commands -/

/-- What matters for the books stays as it is. -/
def SameBooks (s t : Remote η) : Prop := t.session = s.session ∧ t.commands = s.commands

theorem sendCommandAck_same (s : Remote η) (result : UInt8) (base : UInt32) :
    s.SameBooks (s.sendCommandAck P e result base).1 := by
  unfold sendCommandAck
  split
  · exact ⟨rfl, rfl⟩
  · unfold sendUpTracked
    dsimp only
    split
    · exact ⟨rfl, rfl⟩
    · unfold sendSealed
      split
      · exact ⟨rfl, rfl⟩
      · split <;> exact ⟨rfl, rfl⟩

theorem refreshRoute_same (s : Remote η) (leafMac nextHopMac : Mac) :
    s.SameBooks (s.refreshRoute e leafMac nextHopMac) := by
  unfold refreshRoute
  split <;> exact ⟨rfl, rfl⟩

theorem forwardPacket_same (s : Remote η) (f : Frame) : s.SameBooks (s.forwardPacket P e f).1 := by
  unfold forwardPacket
  split
  · split <;> exact ⟨rfl, rfl⟩
  · split
    · exact ⟨rfl, rfl⟩
    · exact refreshRoute_same s f.header.leafMac _

theorem handleUpstream_same (s : Remote η) (senderMac : Mac) (f : Frame) :
    s.SameBooks (s.handleUpstream P e senderMac f).1 := by
  unfold handleUpstream
  split
  · exact ⟨rfl, rfl⟩
  · obtain ⟨hsession, hcommands⟩ := refreshRoute_same (e := e) s f.header.leafMac senderMac
    obtain ⟨hsession', hcommands'⟩ := forwardPacket_same (P := P) (e := e)
      (s.refreshRoute e f.header.leafMac senderMac) f
    exact ⟨hsession'.trans hsession, hcommands'.trans hcommands⟩

/-- A fragment that opens well keeps the balance. -/
theorem Balanced.storeCommand (h : s.Balanced) {counter base : UInt32} {command : EntityPayload}
    (hopens : OpensWell s.session.limits s.commands.pendingAssemblies s.commands.pendingReservedBytes
      command base) : (s.storeCommand P e counter command base).1.Balanced := by
  have hafter := (offerFragment_ledger_iff false e.now h.ledger h.valid).2 hopens
  unfold Remote.storeCommand
  dsimp only
  split
  · exact ⟨h.valid, hafter⟩
  next a ha =>
    split
    · have hcomplete := h.ledger.complete h.valid hopens ha
      obtain ⟨hsession, hcommands⟩ := sendCommandAck_same (P := P) (e := e)
        ((seen { s with commands := { s.commands with
          pendingAssemblies := (offerFragment false s.session.limits s.commands.pendingAssemblies
            s.commands.pendingReservedBytes command base e.now).pending
          pendingReservedBytes := (offerFragment false s.session.limits s.commands.pendingAssemblies
            s.commands.pendingReservedBytes command base e.now).reserved } }
          (max s.session.lastSeenCounter counter)).completeCommand command base a) 0 base
      exact ⟨hsession ▸ h.valid, hcommands ▸ hcomplete⟩
    · exact ⟨h.valid, hafter⟩

/-- So does the handler of a command. -/
theorem Balanced.handleCommand (h : s.Balanced) {f : Frame}
    (hopens : ∀ command record, s.session.joined →
      (s.openFrame P f).bind EntityPayload.parse = some command →
      s.entities.records[command.entityIndex.toNat]? = some record →
      counterIsNewer (fragmentMessageTxBase f.header.txCounter command)
        record.lastCompletedCommandMessageTxBase →
      OpensWell s.session.limits s.commands.pendingAssemblies s.commands.pendingReservedBytes command
        (fragmentMessageTxBase f.header.txCounter command)) :
    (s.handleCommand P e f).1.Balanced := by
  unfold Remote.handleCommand
  split
  · exact h
  next hjoined =>
    rw [not_not] at hjoined
    split
    · exact h
    next plaintext hplaintext =>
      split
      · exact h
      next command hcommand =>
        dsimp only
        have hack (result : UInt8) (base : UInt32) : (s.sendCommandAck P e result base).1.Balanced :=
          h.congr (sendCommandAck_same s result base).1 (sendCommandAck_same s result base).2
        split
        · exact hack _ _
        next record hrecord =>
          split
          next hnew =>
            exact h.storeCommand (hopens command record hjoined (by rw [hplaintext]; exact hcommand)
              hrecord hnew)
          · split
            · exact hack _ _
            · exact h

/-- A `COMMAND` keeps the books in order, if its fragment opens well. -/
theorem Balanced.onEspnowFrame (h : s.Balanced) {senderMac : Mac} {data : Bytes} {rssi : Int} {f : Frame}
    (hf : parseFrame data = some f) (htype : f.type? = some .command)
    (hok : s.FragmentsOpen P (.frame e senderMac data rssi)) :
    (s.onEspnowFrame P e senderMac data rssi).1.Balanced := by
  have hnote : ∃ r, s.noteRssi senderMac rssi = { s with route := r } := by
    unfold noteRssi
    split
    · exact ⟨_, rfl⟩
    · exact ⟨s.route, rfl⟩
  obtain ⟨r, hr⟩ := hnote
  unfold Remote.onEspnowFrame
  rw [hf]
  dsimp only
  unfold onFrame
  split
  · exact h
  next hpsk =>
    split
    · exact h
    next hhops =>
      split
      · exact h
      next hparent =>
        rw [not_not] at hpsk hparent
        rw [hr]
        dsimp only
        split
        · exact ⟨h.valid, h.ledger⟩
        next hsize =>
          split
          next hlocal =>
            have hleaf : f.header.leafMac = s.config.leafMac := by
              unfold shouldHandleLocally at hlocal
              rw [htype] at hlocal
              simpa using hlocal
            have hencrypted : isEncryptedPacket f.header.packetType = true := by
              have hcode : PacketType.ofCode? f.header.packetType = some .command := htype
              rw [isEncryptedPacket, hcode]
              rfl
            have hlen : data.length ≤ s.session.sessionMaxPayload :=
              Nat.not_lt.1 fun hlt => hsize ⟨hencrypted, hlt⟩
            have hhop : ∃ r', noteHops { s with route := r } f = { s with route := r' } := by
              unfold noteHops
              split
              · exact ⟨_, rfl⟩
              · exact ⟨r, rfl⟩
            obtain ⟨r', hr'⟩ := hhop
            rw [hr']
            unfold handleLocally
            rw [htype]
            have hbalanced : Balanced { s with route := r' } := ⟨h.valid, h.ledger⟩
            refine hbalanced.handleCommand fun command record hjoined hview hrecord hnew => ?_
            exact hok f command record ⟨hf, htype, ⟨hpsk, Nat.not_le.1 hhops, hparent⟩, hlen, hleaf, hjoined,
              hview, hrecord, hnew⟩
          · split
            · exact ⟨h.valid, h.ledger⟩
            · split
              · exact Balanced.congr ⟨h.valid, h.ledger⟩ (handleUpstream_same _ _ _).1
                  (handleUpstream_same _ _ _).2
              · exact Balanced.congr ⟨h.valid, h.ledger⟩ (forwardPacket_same _ _).1 (forwardPacket_same _ _).2

/-- Every call keeps the books in order, if its fragment opens well. -/
theorem Balanced.call (h : s.Balanced) (hok : s.FragmentsOpen P c) : (s.call P c).Balanced := by
  by_cases hcommand : ∃ f, c.frame? = some f ∧ f.type? = some .command
  · obtain ⟨f, hf, htype⟩ := hcommand
    cases c with
    | frame e senderMac data rssi => exact h.onEspnowFrame hf htype hok
    | loop | stateChange | textChange => cases hf
  · refine call_invariant (fun t t' ht hmove => ?_) h
    exact ht.move (fun f hf htype => hcommand ⟨f, hf, htype⟩) hmove

theorem Registered.balanced (h : s.Registered) : s.Balanced := by
  obtain ⟨hsession, -, hcommands, -⟩ := h.session
  refine ⟨?_, ?_⟩
  · rw [hsession]
    exact .default
  · rw [hcommands]
    exact .empty

end

end Remote

end EspTree
