import EspTree.Remote.Send

/-!
# The leaf: relations across the senders

The acknowledgements, `send_state_` and `send_schema_push_` are all built on `sendUpTracked` and `sendUp`.  A
relation between leaves that holds across these two, and across what `send_state_` writes down, holds across
each of them.

The relations meant are those of the later modules, such as "the heartbeat is due at the same time"
or "what the leaf reports of itself is the same". `SendClosed` asks of a relation that it is
reflexive and transitive, and that it holds across the few things that the senders are made of.  Each
lemma here then goes through one function of the source once, for all relations, where there would
have been a proof for each pair of a function and a relation.
-/

namespace EspTree

open Wire

namespace Remote

variable {η : Type}

/-- The relation holds across everything that the senders are composed of. -/
structure SendClosed (P : Platform η) (e : Env) (R : Remote η → Remote η → Prop) : Prop where
  refl (s : Remote η) : R s s
  trans {s t u : Remote η} : R s t → R t u → R s u
  ack (s : Remote η) (plaintext : Bytes) : R s (s.sendUpTracked P e .ack plaintext).1
  state (s : Remote η) (plaintext : Bytes) : R s (s.sendUpTracked P e .state plaintext).1
  schemaPush (s : Remote η) (plaintext : Bytes) : R s (s.sendUp P e .schemaPush plaintext).1
  failed (s : Remote η) (index : UInt8) : R s (s.stateSendFailed e index)
  remembered (s : Remote η) (index : UInt8) (value payload : Bytes) (base : UInt32) (reset : Bool) :
    R s ((s.rememberState e index value base reset).note (.stateMessage base index payload))

namespace SendClosed

variable {P : Platform η} {e : Env} {R : Remote η → Remote η → Prop}

theorem sendCommandAck (h : SendClosed P e R) (s : Remote η) (result : UInt8) (base : UInt32) :
    R s (s.sendCommandAck P e result base).1 := by
  unfold Remote.sendCommandAck
  split
  · exact h.refl s
  · exact h.ack s _

theorem sendAck (h : SendClosed P e R) (s : Remote η) (payload : Bytes) (ref : UInt32) :
    R s (s.sendAck P e payload ref).1 := by
  unfold Remote.sendAck
  split
  · exact h.refl s
  · exact h.ack s _

theorem sendConfigAck (h : SendClosed P e R) (s : Remote η) (command result : UInt8) (ref : UInt32) :
    R s (s.sendConfigAck P e command result ref).1 := by
  unfold Remote.sendConfigAck
  split
  · exact h.refl s
  · exact h.sendAck s _ ref

theorem sendStateFragments (h : SendClosed P e R) (index : UInt8) (payload : Bytes)
    (fragSize count left chunk : Nat) (s : Remote η) :
    R s (sendStateFragments P e index payload fragSize count left chunk s).1 := by
  induction left generalizing chunk s with
  | zero => exact h.refl s
  | succ left ih =>
    dsimp only [Remote.sendStateFragments]
    have hsend := h.state s
      (fragmentOf index (s.stateFlags index count chunk) payload fragSize count chunk).bytes
    generalize s.sendUpTracked P e .state (fragmentOf index (s.stateFlags index count chunk) payload
      fragSize count chunk).bytes = o at hsend ⊢
    obtain ⟨t, sent⟩ := o
    match sent with
    | none => exact hsend
    | some false => exact h.trans hsend (h.failed t index)
    | some true => exact h.trans hsend (ih (chunk + 1) t)

/-- A state is sent fragment by fragment, and waits for its acknowledgement. -/
theorem sendState (h : SendClosed P e R) (s : Remote η) (index : UInt8) (value : Bytes) (reset : Bool) :
    R s (s.sendState P e index value reset).1 := by
  unfold Remote.sendState
  split
  · exact h.refl s
  next record _ =>
  split
  · exact h.refl s
  dsimp only
  set count := chunkCount (record.payload value).length s.session.limits.maxEntityFragment
  have hsent := h.sendStateFragments index (record.payload value) s.session.limits.maxEntityFragment
    count count 0 s
  generalize Remote.sendStateFragments P e index (record.payload value)
    s.session.limits.maxEntityFragment count count 0 s = o at hsent ⊢
  obtain ⟨t, sent⟩ := o
  cases sent with
  | false => exact hsent
  | true => exact h.trans hsent (h.remembered t _ _ _ _ _)

theorem sendSchemaFragments (h : SendClosed P e R) (index : UInt8) (payload : Bytes)
    (fragSize count left chunk : Nat) (s : Remote η) :
    R s (sendSchemaFragments P e index payload fragSize count left chunk s).1 := by
  induction left generalizing chunk s with
  | zero => exact h.refl s
  | succ left ih =>
    dsimp only [Remote.sendSchemaFragments]
    set plaintext := (fragmentOf index (if chunk + 1 < count then flagMoreFragments else 0) payload
      fragSize count chunk).bytes
    have hsend := h.schemaPush s plaintext
    generalize s.sendUp P e .schemaPush plaintext = o at hsend ⊢
    obtain ⟨t, sent⟩ := o
    cases sent with
    | false => exact hsend
    | true => exact h.trans hsend (ih (chunk + 1) t)

/-- A descriptor is sent in one piece or in fragments. -/
theorem sendSchemaPush (h : SendClosed P e R) (s : Remote η) (index : UInt8) :
    R s (s.sendSchemaPush P e index).1 := by
  unfold Remote.sendSchemaPush
  split
  · exact h.refl s
  split
  · exact h.refl s
  · exact h.sendSchemaFragments _ _ _ _ _ _ s

end SendClosed

end Remote

end EspTree
