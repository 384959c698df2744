import EspTree.File.Completion
import EspTree.File.Replies

/-!
# Transfers one after another

The manager tells the acknowledgements of a transfer apart by the counter that they refer to, but
only for `ACCEPT` and `GAPS`.  `REJECT`, `ABORT` and `COMPLETE` are taken as they come, in every
state and whichever transfer the receiver sent them for.  So the repeated `COMPLETE`s, a timeout of
the receiver, or the answer to a second `ANNOUNCE` can end a transfer that they are not about, with
success or with failure.

Several transfers to one leaf are composed here over a radio that holds back and repeats.  Frames
carry the number of the transfer that sent them.  An acknowledgement carries the transfer that it
was produced for: the one that the `ANNOUNCE` belongs to, if it answers one, and otherwise the last
one that the receiver has accepted.
-/

namespace EspTree

open Wire FileReceiver OtaManager

namespace Transfers

variable {η : Type}

/-! ## The system -/

/-- A frame of the bridge, with the number of its transfer. -/
structure Frame where
  transfer : Nat
  frame : Transfer.Down

/-- The phase byte of a control packet. -/
def Frame.phase? (f : Frame) : Option UInt8 :=
  if f.frame.type = .fileTransfer then f.frame.payload.head? else none

/-- The file that an `ANNOUNCE` is about. -/
def Frame.offer (f : Frame) : Offer := (Receiver.parseAnnounce f.frame.payload.tail).offer

/-- An acknowledgement of the leaf, with the number of the transfer that it was produced for.
`duplicate` marks the answers to an `ANNOUNCE` of a transfer that was announced before, and `file`
is what the receiver worked on. -/
structure Ack where
  payload : Bytes
  transfer : Nat
  duplicate : Bool
  file : Offer

/-- Both ends, and everything they have sent. -/
structure State (η : Type) where
  receiver : Receiver η
  manager : Manager := {}
  /-- The number of transfers started; the last of them is the current one. -/
  started : Nat := 0
  downlink : List Frame := []
  uplink : List Ack := []
  /-- The last transfer that the receiver has accepted. -/
  working : Nat := 0
  /-- The transfers whose `ANNOUNCE` has reached the receiver. -/
  announced : List Nat := []

/-- The receiver's surroundings. -/
def receiverContext (H : ActionHandler η) (e : Transfer.Env) :
    FileReceiver.Context η (List Bytes) :=
  FileReceiver.context H ⟨e.now, e.ackSent⟩

namespace State

/-- The manager has made a call, with these frames. -/
def sent (s : State η) (y : Manager × List Transfer.Down) : State η :=
  { s with manager := y.1, downlink := s.downlink ++ y.2.map (Frame.mk s.started) }

/-- The receiver has made a call, with these acknowledgements. -/
def answered (s : State η) (transfer : Nat) (duplicate : Bool) (r : Receiver η)
    (acks : List Bytes) : State η :=
  { s with
    receiver := r
    uplink := s.uplink ++ acks.map fun a => ⟨a, transfer, duplicate, s.receiver.offer⟩ }

/-- The transfer that the receiver works on after an `ANNOUNCE` of transfer `t`. -/
def workingAfter (s : State η) (t : Nat) (acks : List Bytes) : Nat :=
  if acks.any (ackResult · == ackAccept) then
    if s.receiver.state = .idle then t else max s.working t
  else s.working

/-- A frame reaches the leaf. -/
def deliverDown (H : ActionHandler η) (e : Transfer.Env) (f : Frame) (s : State η) : State η :=
  match f.frame.type with
  | .fileData =>
    { s with
      receiver := (s.receiver.handleFileData (receiverContext H e) f.frame.payload).1 }
  | .fileTransfer =>
    let r := Transfer.noteTxCounter s.receiver f.frame.txCounter f.frame.payload
    let (r, acks, _) := r.handleFileTransfer (receiverContext H e) [] f.frame.payload
    if f.phase? = some 0x00 then
      { s.answered f.transfer (s.announced.contains f.transfer) r acks with
        announced := f.transfer :: s.announced
        working := s.workingAfter f.transfer acks }
    else s.answered s.working false r acks
  | _ => s

/-- An acknowledgement reaches the bridge. -/
def deliverUp (e : Transfer.Env) (a : Ack) (s : State η) : State η :=
  s.sent (s.manager.onFileAck (Transfer.managerContext e) [] s.manager.leafMac
    (a.payload.getD 0 0) (ackResult a.payload) (ackRef a.payload) (a.payload.drop 6)).1

end State

/-- The steps of the system. -/
inductive Event (η : Type)
  | start (e : Transfer.Env) (leafMac : Mac) (offer : Offer) (maxFramePayload : Nat)
  | source (sequence : Nat) (data : Bytes)
  | sourceAbort (e : Transfer.Env) (reason : UInt8)
  | managerLoop (e : Transfer.Env)
  | receiverLoop (e : Transfer.Env)
  | receiverAbort (e : Transfer.Env) (reason : UInt8) (notifySender : Bool)
  | configure (otaEnabled deepSleepActive : Bool) (maxChunk : UInt16)
  /-- The leaf restarts. -/
  | restart (handlers : UInt8 → Option η)
  | down (e : Transfer.Env) (i : Nat)
  | up (e : Transfer.Env) (i : Nat)

/-- One step. -/
def step (H : ActionHandler η) (s : State η) : Event η → State η
  | .start e leafMac offer maxFramePayload =>
    let (m, frames, _) := s.manager.startTransfer (Transfer.managerContext e) [] leafMac
      offer.fileSize offer.md5 offer.action maxFramePayload offer.fileId
    -- a busy manager refuses; an idle one has the number of the new transfer
    ({ s with started := if s.manager.isBusy then s.started else s.started + 1 } : State η).sent
      (m, frames)
  | .source sequence data => { s with manager := (s.manager.onSourceChunk sequence data).1 }
  | .sourceAbort e reason =>
    s.sent (s.manager.onSourceAbort (Transfer.managerContext e) [] reason)
  | .managerLoop e => s.sent (s.manager.loop (Transfer.managerContext e) [])
  | .receiverLoop e =>
    let (r, acks) := s.receiver.loop (receiverContext H e) []
    s.answered s.working false r acks
  | .receiverAbort e reason notifySender =>
    let (r, acks) := s.receiver.abort (receiverContext H e) [] reason notifySender
    s.answered s.working false r acks
  | .configure otaEnabled deepSleepActive maxChunk =>
    { s with
      receiver := ({ s.receiver with otaEnabled, deepSleepActive } : Receiver η).setMaxChunkSize H
        maxChunk }
  | .restart handlers => { s with receiver := { handlers } }
  | .down e i => (s.downlink[i]?).elim s fun f => s.deliverDown H e f
  | .up e i => (s.uplink[i]?).elim s fun a => s.deliverUp e a

/-- Nothing has been transferred yet. -/
def Initial (s : State η) : Prop :=
  ∃ handlers config, s = { receiver := { handlers }, manager := { config } }

/-- The session gives every frame a counter of its own. -/
def Numbered (frames : List Frame) : Prop :=
  (frames.map (·.frame.txCounter)).Nodup ∧ ∀ f ∈ frames, f.frame.txCounter ≠ 0

instance (frames : List Frame) : Decidable (Numbered frames) :=
  inferInstanceAs (Decidable (_ ∧ _))

/-- What may happen: `ANNOUNCE` frames and acknowledgements arrive late, repeatedly or never, while
an `END` arrives during its own transfer or not at all; and no counter is used twice. -/
def Possible (H : ActionHandler η) (s : State η) (ev : Event η) : Prop :=
  Numbered (step H s ev).downlink ∧
    match ev with
    | .down _ i => ∀ f ∈ s.downlink[i]?, f.phase? = some 0x01 → f.transfer = s.started
    | _ => True

instance (H : ActionHandler η) (s : State η) (ev : Event η) : Decidable (Possible H s ev) :=
  match ev with
  | .down _ i => inferInstanceAs (Decidable (_ ∧ ∀ f ∈ s.downlink[i]?, _ → _))
  | .start .. | .source .. | .sourceAbort .. | .managerLoop _ | .receiverLoop _ | .receiverAbort ..
  | .configure .. | .restart _ | .up .. => inferInstanceAs (Decidable (_ ∧ True))

/-- An acknowledgement of an earlier transfer, or the answer to a repeated `ANNOUNCE`. -/
def Foreign (s : State η) (a : Ack) : Prop := a.transfer < s.started ∨ a.duplicate = true

instance (s : State η) (a : Ack) : Decidable (Foreign s a) := inferInstanceAs (Decidable (_ ∨ _))

/-- What the manager cannot tell apart stays away from it: while it is busy no foreign `REJECT`,
`ABORT` or `COMPLETE` arrives, nor a foreign `ACCEPT` of its last `ANNOUNCE` whose values it
refuses; and a late `ANNOUNCE` of an earlier transfer does not find the receiver idle. -/
def Undisturbed (s : State η) : Event η → Prop
  | .up _ i => ∀ a ∈ s.uplink[i]?, s.manager.state ≠ .idle → Foreign s a →
      ackResult a.payload ≠ ackReject ∧ ackResult a.payload ≠ ackAbort ∧
        ackResult a.payload ≠ ackComplete ∧
        (ackResult a.payload = ackAccept → s.manager.state = .announcing →
          ackRef a.payload = s.manager.announceTxCounter →
          s.manager.core.Acceptable (a.payload.drop 6))
  | .down _ i => ∀ f ∈ s.downlink[i]?, f.phase? = some 0x00 → f.transfer < s.started →
      s.receiver.state ≠ .idle
  | _ => True

instance (s : State η) (ev : Event η) : Decidable (Undisturbed s ev) :=
  match ev with
  | .up _ i => inferInstanceAs (Decidable (∀ a ∈ s.uplink[i]?, _ → _))
  | .down _ i => inferInstanceAs (Decidable (∀ f ∈ s.downlink[i]?, _ → _))
  | .start .. | .source .. | .sourceAbort .. | .managerLoop _ | .receiverLoop _ | .receiverAbort ..
  | .configure .. | .restart _ => inferInstanceAs (Decidable True)

/-- The manager reports success: it was busy, and is idle without an error. -/
def Succeeds (s s' : State η) : Prop :=
  s.manager.state ≠ .idle ∧ s'.manager.state = .idle ∧ s'.manager.lastError = ""

/-- The event delivers the acknowledgement `a`. -/
def Event.Delivers (ev : Event η) (s : State η) (a : Ack) : Prop :=
  ∃ e i, ev = .up e i ∧ s.uplink[i]? = some a

/-- The outcome of a step belongs to the current transfer: a foreign acknowledgement does not end
it, and it succeeds only in `ENDING`, by a `COMPLETE` that the receiver has sent for its file. -/
structure OutcomeBound (s : State η) (ev : Event η) (s' : State η) : Prop where
  foreign : ∀ a, ev.Delivers s a → Foreign s a → s.manager.state ≠ .idle → s'.manager.state ≠ .idle
  success : Succeeds s s' → s.manager.state = .ending ∧
    ∃ a, ev.Delivers s a ∧ ackResult a.payload = ackComplete ∧ a.transfer = s.started ∧
      a.file = s.manager.core.offer

/-! ## The manager's side -/

/-- An announcement offers what the manager has to send. -/
theorem offer_announcePayload {c : Core} (hsize : c.offer.fileSize < 2 ^ 32) (n : Nat)
    (tx : UInt32) : (Frame.mk n ⟨tx, .fileTransfer, c.announcePayload⟩).offer = c.offer :=
  parse_announcePayload hsize

/-- What holds between the manager and the frames that have been sent in `n` transfers, the last of
them by this manager.  `working` is the last transfer that the receiver has accepted. -/
structure Side (n working : Nat) (frames : List Frame) (c : Core) : Prop where
  transfer_le : ∀ f ∈ frames, f.transfer ≤ n
  size : c.state ≠ .idle → c.offer.fileSize < 2 ^ 32
  offered : c.state ≠ .idle → ∀ f ∈ frames, f.phase? = some 0x00 → f.transfer = n →
    f.offer = c.offer
  announced : c.announceTxCounter = 0 ∨ ∃ f ∈ frames, f.phase? = some 0x00 ∧ f.transfer = n ∧
    f.frame.txCounter = c.announceTxCounter
  history : ∀ tx ∈ c.blastCompleteTxHistory, ∃ f ∈ frames, f.phase? = some 0x03 ∧ f.transfer = n ∧
    f.frame.txCounter = tx
  engaged : c.state = .blasting ∨ c.state = .waitingGaps ∨ c.state = .ending → working = n
  followed_le : ∀ f ∈ frames, f.phase? = some 0x03 ∨ f.phase? = some 0x01 → f.transfer ≤ working
  reset : c.state = .idle → c.announceTxCounter = 0 ∧ c.blastCompleteTxHistory = []
  ended : ∀ f ∈ frames, f.phase? = some 0x01 → f.transfer = n → c.state = .ending ∨ c.state = .idle

namespace Side

variable {n working : Nat} {frames : List Frame} {c : Core}

/-- One more frame of the current transfer.  What is new about it depends on its phase. -/
theorem push (h : Side n working frames c) {f : Transfer.Down}
    (hoffer : c.state ≠ .idle → (Frame.mk n f).phase? = some 0x00 → (Frame.mk n f).offer = c.offer)
    (hfollow : (Frame.mk n f).phase? = some 0x03 ∨ (Frame.mk n f).phase? = some 0x01 → working = n)
    (hend : (Frame.mk n f).phase? = some 0x01 → c.state = .ending ∨ c.state = .idle) :
    Side n working (frames ++ [⟨n, f⟩]) c where
  transfer_le g hg := by
    rcases List.mem_append.mp hg with hg | hg
    · exact h.transfer_le g hg
    · rw [List.mem_singleton.mp hg]
  size := h.size
  offered hbusy g hg hp ht := by
    rcases List.mem_append.mp hg with hg | hg
    · exact h.offered hbusy g hg hp ht
    · rw [List.mem_singleton.mp hg] at hp ⊢
      exact hoffer hbusy hp
  announced := h.announced.imp_right fun ⟨g, hg, hrest⟩ => ⟨g, List.mem_append_left _ hg, hrest⟩
  history tx htx :=
    let ⟨g, hg, hrest⟩ := h.history tx htx
    ⟨g, List.mem_append_left _ hg, hrest⟩
  engaged := h.engaged
  followed_le g hg hp := by
    rcases List.mem_append.mp hg with hg | hg
    · exact h.followed_le g hg hp
    · rw [List.mem_singleton.mp hg] at hp ⊢
      exact (hfollow hp).ge
  reset := h.reset
  ended g hg hp ht := by
    rcases List.mem_append.mp hg with hg | hg
    · exact h.ended g hg hp ht
    · rw [List.mem_singleton.mp hg] at hp
      exact hend hp

/-- The current transfer has no `END` unless it is ending. -/
theorem not_ended (h : Side n working frames c) (hs : c.state ≠ .ending) (hi : c.state ≠ .idle)
    {f : Frame} (hf : f ∈ frames) (hp : f.phase? = some 0x01) : f.transfer ≠ n := by
  intro ht
  rcases h.ended f hf hp ht with h | h
  · exact hs h
  · exact hi h

/-- An idle manager has no frame to answer for. -/
theorem idle (h : Side n working frames c) (message : String) :
    Side n working frames (Core.idle message) where
  transfer_le := h.transfer_le
  size hs := absurd rfl hs
  offered hs := absurd rfl hs
  announced := .inl rfl
  history tx htx := absurd htx (List.not_mem_nil)
  engaged hs := by simp [Core.idle] at hs
  followed_le := h.followed_le
  reset _ := ⟨rfl, rfl⟩
  ended _ _ _ _ := .inr rfl

/-- A move of the manager. -/
theorem move {old : List Frame} {c c' : Core} {fs fs' : List Transfer.Down}
    (hm : Move (c, fs) (c', fs')) (h : Side n working (old ++ fs.map (Frame.mk n)) c) :
    Side n working (old ++ fs'.map (Frame.mk n)) c' := by
  have hsnoc (f : Transfer.Down) : old ++ (fs ++ [f]).map (Frame.mk n) =
      old ++ fs.map (Frame.mk n) ++ [⟨n, f⟩] := by simp
  cases hm with
  | data tx payload hs =>
    rw [hsnoc]
    exact h.push (by simp [Frame.phase?]) (by simp [Frame.phase?]) (by simp [Frame.phase?])
  | announce tx a hs ha =>
    rw [hsnoc]
    have hbusy : c.state ≠ .idle := by rw [hs]; decide
    have hpush : Side n working (old ++ fs.map (Frame.mk n) ++
        [⟨n, ⟨tx, .fileTransfer, c.announcePayload⟩⟩]) c :=
      h.push (fun _ _ => offer_announcePayload (h.size hbusy) n tx)
        (by simp [Frame.phase?, Core.announcePayload])
        (by simp [Frame.phase?, Core.announcePayload])
    refine ⟨hpush.transfer_le, hpush.size, hpush.offered, ?_, hpush.history, hpush.engaged,
      hpush.followed_le, fun hi => absurd hi hbusy, hpush.ended⟩
    rcases ha with rfl | rfl
    · exact .inr ⟨_, List.mem_append_right _ (List.mem_singleton_self _),
        by simp [Frame.phase?, Core.announcePayload], rfl, rfl⟩
    · exact hpush.announced
  | blast tx history hs hh =>
    rw [hsnoc]
    have hpush : Side n working (old ++ fs.map (Frame.mk n) ++
        [⟨n, ⟨tx, .fileTransfer, [0x03] ++ leEncode 2 c.currentIncrement⟩⟩]) c :=
      h.push (by simp [Frame.phase?]) (fun _ => h.engaged (hs.imp_right .inl))
        (by simp [Frame.phase?])
    have hbusy : c.state ≠ .idle := by rcases hs with hs | hs <;> rw [hs] <;> decide
    refine ⟨hpush.transfer_le, hpush.size, hpush.offered, hpush.announced, fun t ht => ?_,
      hpush.engaged, hpush.followed_le, fun hi => absurd hi hbusy, hpush.ended⟩
    rcases hh t ht with ht | rfl
    · exact hpush.history t ht
    · exact ⟨_, List.mem_append_right _ (List.mem_singleton_self _), by simp [Frame.phase?], rfl,
        rfl⟩
  | wait hs =>
    have hbusy : c.state ≠ .idle := by rw [hs]; decide
    refine ⟨h.transfer_le, fun _ => h.size hbusy, fun _ => h.offered hbusy, h.announced, h.history,
      fun _ => h.engaged (.inl hs), h.followed_le, by simp, fun f hf hp ht => ?_⟩
    exact absurd ht (h.not_ended (by rw [hs]; decide) hbusy hf hp)
  | finish tx hs =>
    rw [hsnoc]
    exact h.push (by simp [Frame.phase?]) (fun _ => h.engaged (.inr (.inr hs))) (fun _ => .inl hs)
  | abort tx reason hs =>
    rw [hsnoc]
    exact h.push (by simp [Frame.phase?]) (by simp [Frame.phase?]) (by simp [Frame.phase?])
  | fail message hs hm => exact h.idle message

/-- A call of the manager sends frames of the present transfer only. -/
theorem moves {old : List Frame} {c c' : Core} {fs' : List Transfer.Down}
    (hm : Moves (c, []) (c', fs')) (h : Side n working old c) :
    Side n working (old ++ fs'.map (Frame.mk n)) c' :=
  hm.invariant (I := fun c fs => Side n working (old ++ fs.map (Frame.mk n)) c)
    (fun hmove hi => hi.move hmove) (by simpa using h)

/-- A change of state within the transfer. -/
theorem turn (h : Side n working frames c) {c' : Core} (hbusy : c.state ≠ .idle)
    (hending : c.state ≠ .ending) (hworking : working = n) (hoffer : c'.offer = c.offer)
    (hann : c'.announceTxCounter = c.announceTxCounter)
    (hhist : ∀ tx ∈ c'.blastCompleteTxHistory, tx ∈ c.blastCompleteTxHistory)
    (hbusy' : c'.state ≠ .idle) : Side n working frames c' where
  transfer_le := h.transfer_le
  size _ := by
    rw [hoffer]
    exact h.size hbusy
  offered _ := by
    rw [hoffer]
    exact h.offered hbusy
  announced := by
    rw [hann]
    exact h.announced
  history tx htx := h.history tx (hhist tx htx)
  engaged _ := hworking
  followed_le := h.followed_le
  reset hi := absurd hi hbusy'
  ended f hf hp ht := absurd ht (h.not_ended hending hbusy hf hp)

/-- A reaction of the manager.  An `ACCEPT` is of the current transfer. -/
theorem reaction {result : UInt8} {ref : UInt32} {trailing : Bytes} {c' : Core}
    (h : Side n working frames c) (hr : Reaction result ref trailing c c')
    (haccept : result = 0x00 → c.state = .announcing → ref = c.announceTxCounter → working = n) :
    Side n working frames c' := by
  cases hr with
  | accept hr hs href hacc =>
    exact h.turn (by rw [hs]; decide) (by rw [hs]; decide) (haccept hr hs href) rfl rfl
      (by simp) (by simp)
  | misfit => exact h
  | reject => exact h
  | abort => exact h
  | complete => exact h
  | success => exact h.idle ""
  | exhausted => exact h
  | last hr hs =>
    exact h.turn (by rw [hs]; decide) (by rw [hs]; decide) (h.engaged (.inr (.inl hs))) rfl rfl
      (fun _ => id) (by simp)
  | next hr hs =>
    exact h.turn (by rw [hs]; decide) (by rw [hs]; decide) (h.engaged (.inr (.inl hs))) rfl rfl
      (by simp) (by simp)
  | full hr hs =>
    exact h.turn (by rw [hs]; decide) (by rw [hs]; decide) (h.engaged (.inr (.inl hs))) rfl rfl
      (fun _ => id) (by simp)
  | gaps hr hs =>
    exact h.turn (by rw [hs]; decide) (by rw [hs]; decide) (h.engaged (.inr (.inl hs))) rfl rfl
      (by simp) (by simp)

/-- The receiver accepts a later transfer. -/
theorem accepted (h : Side n working frames c) {working' : Nat} (hle : working ≤ working')
    (hn : working' ≤ n) : Side n working' frames c where
  transfer_le := h.transfer_le
  size := h.size
  offered := h.offered
  announced := h.announced
  history := h.history
  engaged hs := by
    have := h.engaged hs
    omega
  followed_le f hf hp := (h.followed_le f hf hp).trans hle
  reset := h.reset
  ended := h.ended

/-- The next transfer starts. -/
theorem start (h : Side n working frames c) (offer : Offer) (chunk : Nat)
    (hsize : offer.fileSize < 2 ^ 32) : Side (n + 1) working frames (Core.started offer chunk) where
  transfer_le f hf := (h.transfer_le f hf).trans (Nat.le_succ n)
  size _ := hsize
  offered _ f hf _ ht := absurd (h.transfer_le f hf) (by omega)
  announced := .inl rfl
  history tx htx := absurd htx List.not_mem_nil
  engaged hs := by simp [Core.started] at hs
  followed_le := h.followed_le
  reset hi := by simp [Core.started] at hi
  ended f hf _ ht := absurd (h.transfer_le f hf) (by omega)

/-- A start that is refused. -/
theorem refused (h : Side n working frames c) (hidle : c.state = .idle) (message : String) :
    Side (n + 1) working frames { c with lastError := message } where
  transfer_le f hf := (h.transfer_le f hf).trans (Nat.le_succ n)
  size hs := absurd hidle hs
  offered hs := absurd hidle hs
  announced := .inl (h.reset hidle).1
  history tx htx := by
    have htx : tx ∈ c.blastCompleteTxHistory := htx
    rw [(h.reset hidle).2] at htx
    exact absurd htx List.not_mem_nil
  engaged hs := by simp [hidle] at hs
  followed_le := h.followed_le
  reset := h.reset
  ended f hf _ ht := absurd (h.transfer_le f hf) (by omega)

end Side

/-! ## The ledger -/

/-- Where an acknowledgement comes from. -/
inductive Origin (working : Nat) (frames : List Frame) (a : Ack) : Prop
  | reject (hr : ackResult a.payload = ackReject)
  | accept (hr : ackResult a.payload = ackAccept) (hle : a.transfer ≤ working)
      (href : ∃ f ∈ frames, f.phase? = some 0x00 ∧ f.transfer = a.transfer ∧
        f.frame.txCounter = ackRef a.payload)
  | abort (hr : ackResult a.payload = ackAbort)
  | gaps (hr : ackResult a.payload = ackGaps) (hd : a.duplicate = false)
      (href : ∃ f ∈ frames, f.phase? = some 0x03 ∧ f.transfer ≤ a.transfer ∧
        f.frame.txCounter = ackRef a.payload)
  | complete (hr : ackResult a.payload = ackComplete)
      (hend : ∃ f ∈ frames, f.phase? = some 0x01 ∧ f.transfer = a.transfer)
      (hfile : ∃ f ∈ frames, f.phase? = some 0x00 ∧ f.transfer = a.transfer ∧ f.offer = a.file)

/-- The invariant of undisturbed runs. -/
structure Ledger (s : State η) : Prop where
  side : Side s.started s.working s.downlink s.manager.core
  working_le : s.working ≤ s.started
  numbered : Numbered s.downlink
  receiving : s.receiver.state ≠ .idle → ∃ f ∈ s.downlink, f.phase? = some 0x00 ∧
    f.transfer = s.working ∧ f.offer = s.receiver.offer
  completing : s.receiver.inCompletePhase = true → s.receiver.state = .verifying ∧
    ∃ f ∈ s.downlink, f.phase? = some 0x01 ∧ f.transfer = s.working
  acks : ∀ a ∈ s.uplink, Origin s.working s.downlink a

/-- More frames do not take back what was sent. -/
theorem exists_mem_append {frames more : List Frame} {P : Frame → Prop}
    (h : ∃ f ∈ frames, P f) : ∃ f ∈ frames ++ more, P f :=
  let ⟨f, hf, hp⟩ := h
  ⟨f, List.mem_append_left _ hf, hp⟩

/-- An acknowledgement keeps its origin when frames are sent and later transfers accepted. -/
theorem Origin.mono {working working' : Nat} {frames more : List Frame} {a : Ack}
    (h : Origin working frames a) (hle : working ≤ working') :
    Origin working' (frames ++ more) a := by
  cases h with
  | reject hr => exact .reject hr
  | accept hr hw href => exact .accept hr (hw.trans hle) (exists_mem_append href)
  | abort hr => exact .abort hr
  | gaps hr hd href => exact .gaps hr hd (exists_mem_append href)
  | complete hr hend hfile =>
    exact .complete hr (exists_mem_append hend) (exists_mem_append hfile)

namespace Ledger

variable {s : State η}

/-- A counter belongs to one frame. -/
theorem unique (h : Ledger s) {f g : Frame} (hf : f ∈ s.downlink) (hg : g ∈ s.downlink)
    (heq : f.frame.txCounter = g.frame.txCounter) : f = g :=
  List.inj_on_of_nodup_map h.numbered.1 hf hg heq

/-- An `ACCEPT` with the counter of the last `ANNOUNCE` is of the current transfer. -/
theorem accept_current (h : Ledger s) {a : Ack} (ha : a ∈ s.uplink)
    (hr : ackResult a.payload = ackAccept)
    (href : ackRef a.payload = s.manager.announceTxCounter) : s.working = s.started := by
  cases h.acks a ha with
  | accept _ hle horigin =>
    obtain ⟨f, hf, -, hft, hfc⟩ := horigin
    rcases h.side.announced with hzero | ⟨g, hg, -, hgt, hgc⟩
    · exact absurd (hfc.trans (href.trans hzero)) (h.numbered.2 f hf)
    · have hfg : f = g := h.unique hf hg (hfc.trans (href.trans hgc.symm))
      have := h.working_le
      rw [hfg, hgt] at hft
      omega
  | reject hr' | abort hr' | gaps hr' | complete hr' =>
    rw [hr] at hr'
    exact absurd hr' (by decide)

/-- A `GAPS` whose counter is in the history is of the current transfer. -/
theorem gaps_current (h : Ledger s) {a : Ack} (ha : a ∈ s.uplink)
    (hr : ackResult a.payload = ackGaps)
    (href : ackRef a.payload ∈ s.manager.tracker.blastCompleteTxHistory) : ¬ Foreign s a := by
  cases h.acks a ha with
  | gaps _ hd horigin =>
    obtain ⟨f, hf, -, hft, hfc⟩ := horigin
    obtain ⟨g, hg, -, hgt, hgc⟩ := h.side.history _ href
    have hfg : f = g := h.unique hf hg (hfc.trans hgc.symm)
    rw [hfg, hgt] at hft
    rintro (hlt | hdup)
    · omega
    · rw [hd] at hdup
      cases hdup
  | reject hr' | accept hr' | abort hr' | complete hr' =>
    rw [hr] at hr'
    exact absurd hr' (by decide)

/-- A `COMPLETE` that is not foreign is for the file of the transfer that is ending. -/
theorem complete_current (h : Ledger s) (hbusy : s.manager.state ≠ .idle) {a : Ack}
    (ha : a ∈ s.uplink) (hr : ackResult a.payload = ackComplete) (hforeign : ¬ Foreign s a) :
    s.manager.state = .ending ∧ a.transfer = s.started ∧ a.file = s.manager.core.offer := by
  cases h.acks a ha with
  | complete _ hend hfile =>
    obtain ⟨f, hf, hfp, hft⟩ := hend
    obtain ⟨g, hg, hgp, hgt, hgo⟩ := hfile
    have hle := h.side.transfer_le f hf
    have hnot : ¬ a.transfer < s.started := fun hlt => hforeign (.inl hlt)
    have hcur : a.transfer = s.started := by omega
    rw [hcur] at hft hgt
    refine ⟨(h.side.ended f hf hfp hft).resolve_right hbusy, hcur, ?_⟩
    rw [← hgo]
    exact h.side.offered hbusy g hg hgp hgt
  | reject hr' | accept hr' | abort hr' | gaps hr' =>
    rw [hr] at hr'
    exact absurd hr' (by decide)

/-! ### Steps of the manager -/

/-- The books are right when frames of the present transfer are added. -/
theorem sent (h : Ledger s) {n : Nat} {y : Manager × List Transfer.Down} (hn : s.started ≤ n)
    (hside : Side n s.working (s.downlink ++ y.2.map (Frame.mk n)) y.1.core)
    (hnum : Numbered (s.downlink ++ y.2.map (Frame.mk n))) :
    Ledger (({ s with started := n } : State η).sent y) where
  side := hside
  working_le := h.working_le.trans hn
  numbered := hnum
  receiving hr := exists_mem_append (h.receiving hr)
  completing hr := (h.completing hr).imp_right exists_mem_append
  acks a ha := (h.acks a ha).mono le_rfl

theorem moved (h : Ledger s) {y : Manager × List Transfer.Down}
    (hm : Moves (s.manager.core, []) (y.1.core, y.2)) (hnum : Numbered (s.sent y).downlink) :
    Ledger (s.sent y) :=
  h.sent le_rfl (h.side.moves hm) hnum

/-- Delivering an acknowledgement keeps the books, whichever transfer it is of. -/
theorem deliverUp (h : Ledger s) {e : Transfer.Env} {a : Ack} (ha : a ∈ s.uplink)
    (hnum : Numbered (s.deliverUp e a).downlink) : Ledger (s.deliverUp e a) := by
  rcases s.manager.onFileAck_moves (e := e) [] s.manager.leafMac (a.payload.getD 0 0)
    (ackResult a.payload) (ackRef a.payload) (a.payload.drop 6) with ⟨hcore, hfs⟩ | ⟨-, c, hr, hm⟩
  · refine h.moved ?_ hnum
    rw [hcore, hfs]
    exact .refl
  · refine h.sent le_rfl ?_ hnum
    exact (h.side.reaction hr fun hr _ href => h.accept_current ha hr href).moves hm

/-- A new transfer opens a new page. -/
theorem start (h : Ledger s) {H : ActionHandler η} {e : Transfer.Env} {mac : Mac} {o : Offer}
    {maxFrame : Nat} (hnum : Numbered (step H s (.start e mac o maxFrame)).downlink) :
    Ledger (step H s (.start e mac o maxFrame)) := by
  have hle : s.started ≤ if s.manager.isBusy then s.started else s.started + 1 := by
    split <;> omega
  have hmoves := s.manager.startTransfer_moves (e := e) [] mac o.fileSize o.md5 o.action maxFrame
    o.fileId
  obtain ⟨m, fs, ok, hy⟩ : ∃ m fs ok, s.manager.startTransfer (Transfer.managerContext e) [] mac
      o.fileSize o.md5 o.action maxFrame o.fileId = (m, fs, ok) := ⟨_, _, _, rfl⟩
  rw [hy] at hmoves
  have hstep : step H s (.start e mac o maxFrame) = ({ s with
      started := if s.manager.isBusy then s.started else s.started + 1 } : State η).sent
        (m, fs) := by
    rw [step, hy]
  rw [hstep] at hnum ⊢
  refine h.sent hle ?_ hnum
  rcases hmoves with ⟨message, hcore, hfs⟩ | ⟨hidle, hsize, hm⟩
  · dsimp only at hcore hfs ⊢
    rw [hcore, hfs, List.map_nil, List.append_nil]
    by_cases hidle : s.manager.state = .idle
    · rw [if_neg (by simp [Manager.isBusy, hidle])]
      exact h.side.refused hidle message
    · rw [if_pos (by simpa [Manager.isBusy] using hidle)]
      have hs := h.side
      exact ⟨hs.transfer_le, hs.size, hs.offered, hs.announced, hs.history, hs.engaged,
        hs.followed_le, hs.reset, hs.ended⟩
  · rw [if_neg (by simp [Manager.isBusy, hidle])]
    exact (h.side.start o _ (by omega)).moves hm

/-! ### Steps of the receiver -/

/-- What the receiver answers belongs to the transfer that it is in. -/
theorem answered (h : Ledger s) {r r' : Receiver η} {blast ending : Prop} {acks : List Bytes}
    (hs : Serves r blast ending r' acks) (hoffer : r.offer = s.receiver.offer)
    (hstate : r.state = s.receiver.state) (hphase : r.inCompletePhase = s.receiver.inCompletePhase)
    (hblast : blast → ∃ f ∈ s.downlink, f.phase? = some 0x03 ∧ f.transfer ≤ s.working ∧
      f.frame.txCounter = r.lastBlastCompleteTxCounter)
    (hend : ending → ∃ f ∈ s.downlink, f.phase? = some 0x01 ∧ f.transfer = s.working) :
    Ledger (s.answered s.working false r' acks) where
  side := h.side
  working_le := h.working_le
  numbered := h.numbered
  receiving hr := by
    have hr : r'.state ≠ .idle := hr
    change ∃ f ∈ s.downlink, f.phase? = some 0x00 ∧ f.transfer = s.working ∧ f.offer = r'.offer
    rcases hs.stays with hended | ⟨hsame, hst⟩
    · exact absurd hended.1 hr
    · rw [hsame, hoffer]
      apply h.receiving
      rw [← hstate]
      rcases hst with hst | hst
      · rwa [← hst]
      · exact hst.1.1
  completing hp := by
    have hp : r'.inCompletePhase = true := hp
    rcases hs.phase hp with hold | ⟨he, hver⟩
    · rw [hphase] at hold
      obtain ⟨hver, hf⟩ := h.completing hold
      refine ⟨?_, hf⟩
      rcases hs.stays with hended | ⟨-, hst | hst⟩
      · rw [hended.2] at hp
        cases hp
      · exact hst.trans (hstate.trans hver)
      · exact absurd (hstate.trans hver) hst.1.2
    · exact ⟨hver, hend he⟩
  acks a ha := by
    rcases List.mem_append.mp ha with ha | ha
    · exact h.acks a ha
    obtain ⟨p, hp, rfl⟩ := List.mem_map.mp ha
    cases hs.answers p hp with
    | gaps bitmap hb hr href =>
      obtain ⟨f, hf, hfp, hft, hfc⟩ := hblast hb
      exact .gaps hr rfl ⟨f, hf, hfp, hft, hfc.trans href.symm⟩
    | abort hr => exact .abort hr
    | complete hr hbusy hp =>
      refine .complete hr ?_ (h.receiving (hstate ▸ hbusy))
      rcases hp with hp | he
      · exact (h.completing (hphase ▸ hp)).2
      · exact hend he

/-- A packet other than `ANNOUNCE` reaches the leaf. -/
theorem deliverControl (h : Ledger s) {H : ActionHandler η} {e : Transfer.Env} {f : Frame}
    (hf : f ∈ s.downlink) (htype : f.frame.type = .fileTransfer) (hp : f.phase? ≠ some 0x00)
    (hend : f.phase? = some 0x01 → f.transfer = s.started) : Ledger (s.deliverDown H e f) := by
  have hphase : f.phase? = f.frame.payload.head? := by rw [Frame.phase?, if_pos htype]
  obtain ⟨a, b, hnote, -, hb⟩ :=
    noteTxCounter_eq s.receiver f.frame.txCounter f.frame.payload
  have hstep : s.deliverDown H e f = s.answered s.working false
      (Receiver.handleFileTransfer (receiverContext H e)
        (Transfer.noteTxCounter s.receiver f.frame.txCounter f.frame.payload) []
        f.frame.payload).1
      (Receiver.handleFileTransfer (receiverContext H e)
        (Transfer.noteTxCounter s.receiver f.frame.txCounter f.frame.payload) []
        f.frame.payload).2.1 := by
    simp only [State.deliverDown, htype, if_neg hp]
  rw [hstep, hnote]
  refine h.answered (serves_handleFileTransfer _ _ (hphase ▸ hp)) rfl rfl rfl ?_ ?_
  · intro hblast
    exact ⟨f, hf, hphase.trans hblast, h.side.followed_le f hf (.inl (hphase.trans hblast)),
      (hb hblast).symm⟩
  · intro hending
    have hending := hphase.trans hending
    have hle := h.side.followed_le f hf (.inr hending)
    have := h.working_le
    have := hend hending
    exact ⟨f, hf, hending, by omega⟩

/-- The receiver answers an `ANNOUNCE`. -/
theorem announceAnswer (h : Ledger s) {r r' : Receiver η} {ack : Bytes} {f : Frame}
    (hans : AnnounceAnswer r f.offer r' ack) (hoffer : r.offer = s.receiver.offer)
    (hstate : r.state = s.receiver.state) (hphase : r.inCompletePhase = s.receiver.inCompletePhase)
    (htx : r.announceTxCounter = f.frame.txCounter) (hf : f ∈ s.downlink)
    (hp : f.phase? = some 0x00) (hlate : f.transfer < s.started → s.receiver.state ≠ .idle)
    (duplicate : Bool) :
    Ledger { s.answered f.transfer duplicate r' [ack] with
      announced := f.transfer :: s.announced
      working := s.workingAfter f.transfer [ack] } := by
  have hft := h.side.transfer_le f hf
  have hwle := h.working_le
  -- the number of the transfer only grows, since a late `ANNOUNCE` finds the receiver busy
  have hgrow (hacc : ackResult ack = ackAccept) : s.working ≤ s.workingAfter f.transfer [ack] ∧
      s.workingAfter f.transfer [ack] ≤ s.started ∧
      f.transfer ≤ s.workingAfter f.transfer [ack] := by
    rw [State.workingAfter, if_pos (by simp [hacc])]
    split
    · next hidle =>
      have : ¬ f.transfer < s.started := fun hlt => hlate hlt hidle
      omega
    · omega
  have hacks {w : Nat} (hw : s.working ≤ w)
      (hnew : Origin w s.downlink ⟨ack, f.transfer, duplicate, s.receiver.offer⟩) :
      ∀ a ∈ s.uplink ++ [⟨ack, f.transfer, duplicate, s.receiver.offer⟩],
        Origin w s.downlink a := by
    intro a ha
    rcases List.mem_append.mp ha with ha | ha
    · have horigin : Origin w (s.downlink ++ []) a := (h.acks a ha).mono hw
      rwa [List.append_nil] at horigin
    · rw [List.mem_singleton.mp ha]
      exact hnew
  have hcomplete (hidle : r.state = .idle) : r.inCompletePhase ≠ true := by
    intro hon
    have := (h.completing (hphase ▸ hon)).1
    rw [← hstate, hidle] at this
    cases this
  cases hans with
  | reject hr hst ho hph =>
    have hw : s.workingAfter f.transfer [ack] = s.working := by
      rw [State.workingAfter, if_neg (by simp [hr]; decide)]
    rw [hw]
    refine ⟨h.side, hwle, h.numbered, fun hbusy => ?_, fun hon => ?_, hacks le_rfl (.reject hr)⟩
    · have hbusy : r.state ≠ .idle := hst ▸ hbusy
      have hsame := (ho.resolve_left hbusy).trans hoffer
      change ∃ g ∈ s.downlink, g.phase? = some 0x00 ∧ g.transfer = s.working ∧ g.offer = r'.offer
      rw [hsame]
      exact h.receiving (hstate ▸ hbusy)
    · obtain ⟨hver, hend⟩ := h.completing (hphase ▸ hph hon)
      exact ⟨hst.trans (hstate.trans hver), hend⟩
  | again hr href hopen ho hrr =>
    obtain ⟨hw, hle, hfw⟩ := hgrow hr
    have hnew : Origin (s.workingAfter f.transfer [ack]) s.downlink
        ⟨ack, f.transfer, duplicate, s.receiver.offer⟩ :=
      .accept hr hfw ⟨f, hf, hp, rfl, htx.symm.trans href.symm⟩
    refine ⟨h.side.accepted hw hle, hle, h.numbered, fun _ => ?_, fun hon => ?_, hacks hw hnew⟩
    · change ∃ g ∈ s.downlink, g.phase? = some 0x00 ∧ g.transfer = s.workingAfter f.transfer [ack] ∧
        g.offer = r'.offer
      have hbusy : s.receiver.state ≠ .idle := hstate ▸ hopen.1
      have hmax : s.workingAfter f.transfer [ack] = max s.working f.transfer := by
        rw [State.workingAfter, if_pos (by simp [hr]), if_neg hbusy]
      rw [hrr, hmax]
      rcases Nat.le_total s.working f.transfer with hcmp | hcmp
      · exact ⟨f, hf, hp, by omega, ho.symm⟩
      · obtain ⟨g, hg, hgp, hgt, hgo⟩ := h.receiving hbusy
        exact ⟨g, hg, hgp, by omega, hgo.trans hoffer.symm⟩
    · have hon : r.inCompletePhase = true := hrr ▸ hon
      have hver := (h.completing (hphase ▸ hon)).1
      exact absurd (hstate.trans hver) hopen.2
  | begun hr href hidle ho ht hph =>
    obtain ⟨hw, hle, hfw⟩ := hgrow hr
    have hnew : Origin (s.workingAfter f.transfer [ack]) s.downlink
        ⟨ack, f.transfer, duplicate, s.receiver.offer⟩ :=
      .accept hr hfw ⟨f, hf, hp, rfl, htx.symm.trans href.symm⟩
    refine ⟨h.side.accepted hw hle, hle, h.numbered, fun hbusy => ?_,
      fun hon => absurd (hph hon) (hcomplete hidle), hacks hw hnew⟩
    have hbegun : s.workingAfter f.transfer [ack] = f.transfer := by
      rw [State.workingAfter, if_pos (by simp [hr]), if_pos (hstate ▸ hidle)]
    exact ⟨f, hf, hp, hbegun.symm, (ho.resolve_left hbusy).symm⟩

/-- An `ANNOUNCE` reaches the leaf. -/
theorem deliverAnnounce (h : Ledger s) {H : ActionHandler η} {e : Transfer.Env} {f : Frame}
    (hf : f ∈ s.downlink) (htype : f.frame.type = .fileTransfer) (hp : f.phase? = some 0x00)
    (hlate : f.transfer < s.started → s.receiver.state ≠ .idle) :
    Ledger (s.deliverDown H e f) := by
  have hhead : f.frame.payload.head? = some 0x00 := by rw [← hp, Frame.phase?, if_pos htype]
  obtain ⟨body, hbody⟩ : ∃ body, f.frame.payload = 0x00 :: body := by
    cases hpay : f.frame.payload with
    | nil => simp [hpay] at hhead
    | cons b body =>
      rw [hpay, List.head?_cons, Option.some.injEq] at hhead
      exact ⟨body, by rw [hhead]⟩
  obtain ⟨tx, b, hnote, htx, -⟩ :=
    noteTxCounter_eq s.receiver f.frame.txCounter f.frame.payload
  have hstep {r' : Receiver η} {acks : List Bytes} {ok : Bool}
      (hcall : Receiver.handleFileTransfer (receiverContext H e)
        { s.receiver with announceTxCounter := tx, lastBlastCompleteTxCounter := b } []
        f.frame.payload = (r', acks, ok)) :
      s.deliverDown H e f =
        { s.answered f.transfer (s.announced.contains f.transfer) r' acks with
          announced := f.transfer :: s.announced
          working := s.workingAfter f.transfer acks } := by
    simp only [State.deliverDown, htype, if_pos hp, hnote, hcall]
  by_cases hlen : body.length = 35
  · set r : Receiver η := { s.receiver with
      announceTxCounter := tx, lastBlastCompleteTxCounter := b, lastActivityMs := e.now } with hr
    obtain ⟨r', acks, ok, hy⟩ : ∃ r' acks ok, r.handleAnnounce (receiverContext H e) []
        (Receiver.parseAnnounce body) = (r', acks, ok) := ⟨_, _, _, rfl⟩
    obtain ⟨ack, hacks, hans⟩ :=
      handleAnnounce_answer (H := H) (e := ⟨e.now, e.ackSent⟩) r (Receiver.parseAnnounce body)
    rw [show r.handleAnnounce (context H ⟨e.now, e.ackSent⟩) [] (Receiver.parseAnnounce body) =
      (r', acks, ok) from hy] at hacks hans
    obtain rfl : acks = [ack] := hacks
    have hoffer : (Receiver.parseAnnounce body).offer = f.offer := by
      rw [Frame.offer, hbody, List.tail_cons]
    rw [hoffer] at hans
    have hcall : Receiver.handleFileTransfer (receiverContext H e)
        { s.receiver with announceTxCounter := tx, lastBlastCompleteTxCounter := b } []
        f.frame.payload = (r', [ack], ok) := by
      rw [← hy, hbody]
      exact handleFileTransfer_announce H ⟨e.now, e.ackSent⟩ _ _ hlen
    rw [hstep hcall]
    exact h.announceAnswer hans rfl rfl rfl (htx hhead) hf hp hlate _
  · have hcall : Receiver.handleFileTransfer (receiverContext H e)
        { s.receiver with announceTxCounter := tx, lastBlastCompleteTxCounter := b } []
        f.frame.payload = ({ s.receiver with
          announceTxCounter := tx, lastBlastCompleteTxCounter := b, lastActivityMs := e.now }, [],
          false) := by
      rw [hbody, Receiver.handleFileTransfer]
      simp only [beq_self_eq_true, if_true, if_neg hlen]
      rfl
    rw [hstep hcall]
    exact ⟨h.side, h.working_le, h.numbered, h.receiving, h.completing,
      by simpa [State.answered, State.workingAfter] using h.acks⟩

/-- Delivering a frame keeps the books, unless it is one of those that the condition excludes. -/
theorem deliverDown (h : Ledger s) {H : ActionHandler η} {e : Transfer.Env} {f : Frame}
    (hf : f ∈ s.downlink) (hend : f.phase? = some 0x01 → f.transfer = s.started)
    (hlate : f.phase? = some 0x00 → f.transfer < s.started → s.receiver.state ≠ .idle) :
    Ledger (s.deliverDown H e f) := by
  by_cases htype : f.frame.type = .fileTransfer
  · by_cases hp : f.phase? = some 0x00
    · exact h.deliverAnnounce hf htype hp (hlate hp)
    · exact h.deliverControl hf htype hp hend
  unfold State.deliverDown
  split
  · have hserves : Serves s.receiver False False _ [] :=
      serves_handleFileData (H := H) (e := ⟨e.now, e.ackSent⟩) s.receiver f.frame.payload
    have hans := h.answered hserves rfl rfl rfl False.elim False.elim
    simpa [State.answered, receiverContext] using hans
  · next hfile => exact absurd hfile htype
  · exact h

/-- An undisturbed step keeps the ledger. -/
theorem step (h : Ledger s) {H : ActionHandler η} {ev : Event η} (hp : Possible H s ev)
    (hu : Undisturbed s ev) : Ledger (step H s ev) := by
  obtain ⟨hnum, hp⟩ := hp
  have hphase : s.receiver.inCompletePhase = true → s.receiver.state ≠ .idle := by
    intro hon hidle
    rw [(h.completing hon).1] at hidle
    cases hidle
  cases ev with
  | start e mac o maxFrame => exact h.start hnum
  | source sequence data =>
    have hside := h.side
    rw [← s.manager.core_onSourceChunk sequence data] at hside
    exact ⟨hside, h.working_le, h.numbered, h.receiving, h.completing, h.acks⟩
  | sourceAbort e reason => exact h.moved (s.manager.onSourceAbort_moves [] reason) hnum
  | managerLoop e => exact h.moved (s.manager.loop_moves []) hnum
  | receiverLoop e =>
    exact h.answered (serves_loop hphase) rfl rfl rfl False.elim False.elim
  | receiverAbort e reason notifySender =>
    exact h.answered (serves_abort (by simp) s.receiver reason notifySender) rfl rfl rfl
      False.elim False.elim
  | configure otaEnabled deepSleepActive maxChunk =>
    exact ⟨h.side, h.working_le, h.numbered, h.receiving, h.completing, h.acks⟩
  | restart handlers =>
    exact ⟨h.side, h.working_le, h.numbered, fun hbusy => absurd rfl hbusy,
      fun hon => absurd hon (by simp [Transfers.step]), h.acks⟩
  | down e i =>
    change Ledger ((s.downlink[i]?).elim s fun f => s.deliverDown H e f)
    cases hi : s.downlink[i]? with
    | none => exact h
    | some f =>
      exact h.deliverDown (List.mem_of_getElem? hi) (hp f hi) (hu f hi)
  | up e i =>
    change Ledger ((s.uplink[i]?).elim s fun a => s.deliverUp e a)
    change Numbered ((s.uplink[i]?).elim s fun a => s.deliverUp e a).downlink at hnum
    cases hi : s.uplink[i]? with
    | none => exact h
    | some a =>
      rw [hi] at hnum
      exact h.deliverUp (List.mem_of_getElem? hi) hnum

theorem initial (h : Initial s) : Ledger s := by
  obtain ⟨handlers, config, rfl⟩ := h
  refine ⟨⟨by simp, by simp [Manager.core], by simp, .inl rfl, ?_, by simp [Manager.core], by simp,
    fun _ => ⟨rfl, rfl⟩, by simp⟩, le_rfl, ⟨by simp, by simp⟩, by simp, by simp, by simp⟩
  intro tx htx
  exact absurd htx List.not_mem_nil

end Ledger

/-! ## Outcomes -/

/-- A manager that moves on its own does not become idle without an error. -/
theorem lastError_ne_of_moves {c c' : Core} {fs fs' : List Transfer.Down}
    (hm : Moves (c, fs) (c', fs')) (hbusy : c.state ≠ .idle) (hidle : c'.state = .idle) :
    c'.lastError ≠ "" := by
  refine hm.invariant (I := fun c _ => c.state = .idle → c.lastError ≠ "") ?_ (absurd · hbusy) hidle
  intro c c' fs fs' hmove hi
  cases hmove with
  | data => exact hi
  | announce => exact hi
  | blast => exact hi
  | wait => simp
  | finish => exact hi
  | abort => exact hi
  | fail message hs hmsg => exact fun _ => hmsg

/-- A refused start is no success. -/
theorem state_startTransfer {m : Manager} {e : Transfer.Env} {mac : Mac} {o : Offer}
    {maxFrame : Nat} (hbusy : m.state ≠ .idle) :
    (m.startTransfer (Transfer.managerContext e) [] mac o.fileSize o.md5 o.action maxFrame
      o.fileId).1.state ≠ .idle := by
  rcases m.startTransfer_moves (e := e) [] mac o.fileSize o.md5 o.action maxFrame o.fileId
    with ⟨message, hcore, -⟩ | ⟨hidle, -, -⟩
  · have hstate := congrArg Core.state hcore
    exact fun hidle => hbusy (hstate.symm.trans hidle)
  · exact absurd hidle hbusy

namespace Ledger

variable {s : State η}

/-- A foreign acknowledgement that is let through does not end the transfer. -/
theorem foreign_up (h : Ledger s) {e : Transfer.Env} {a : Ack} (ha : a ∈ s.uplink)
    (hforeign : Foreign s a) (hbusy : s.manager.state ≠ .idle)
    (hu : ackResult a.payload ≠ ackReject ∧ ackResult a.payload ≠ ackAbort ∧
      ackResult a.payload ≠ ackComplete ∧
      (ackResult a.payload = ackAccept → s.manager.state = .announcing →
        ackRef a.payload = s.manager.announceTxCounter →
        s.manager.core.Acceptable (a.payload.drop 6))) :
    (s.deliverUp e a).manager.state ≠ .idle := by
  obtain ⟨hrej, hab, hcomp, haccept⟩ := hu
  rcases s.manager.onFileAck_moves (e := e) [] s.manager.leafMac (a.payload.getD 0 0)
    (ackResult a.payload) (ackRef a.payload) (a.payload.drop 6) with ⟨hcore, -⟩ | ⟨-, c, hr, -⟩
  · have hstate := congrArg Core.state hcore
    exact fun hidle => hbusy (hstate.symm.trans hidle)
  have hacc (hr : ackResult a.payload = 0x00) (hs : s.manager.core.state = .announcing)
      (href : ackRef a.payload = s.manager.core.announceTxCounter) :
      (s.deliverUp e a).manager.state ≠ .idle := by
    have href : ackRef a.payload = s.manager.announceTxCounter := href
    change (s.manager.onFileAck (Transfer.managerContext e) [] s.manager.leafMac
      (a.payload.getD 0 0) (ackResult a.payload) (ackRef a.payload) (a.payload.drop 6)).1.1.state ≠
        .idle
    rw [hr, href]
    exact s.manager.onFileAck_acceptable [] _ _ hs (haccept hr hs href)
  have hgaps (hr : ackResult a.payload = 0x05)
      (href : ackRef a.payload ∈ s.manager.core.blastCompleteTxHistory) :
      (s.deliverUp e a).manager.state ≠ .idle :=
    absurd hforeign (h.gaps_current ha hr href)
  cases hr with
  | accept hr hs href => exact hacc hr hs href
  | misfit hr hs href => exact hacc hr hs href
  | reject hr => exact absurd hr hrej
  | abort hr => exact absurd hr hab
  | complete hr => exact absurd hr hcomp
  | success hr => exact absurd hr hcomp
  | exhausted hr _ href => exact hgaps hr href
  | last hr _ href => exact hgaps hr href
  | next hr _ href => exact hgaps hr href
  | full hr _ href => exact hgaps hr href
  | gaps hr _ href => exact hgaps hr href

/-- A `REJECT`, `ABORT` or `COMPLETE` always ends the transfer, whichever transfer it is for. -/
theorem ended_up {e : Transfer.Env} {a : Ack}
    (htype : a.payload.getD 0 0 = PacketType.fileTransfer.code)
    (hr : ackResult a.payload = ackReject ∨ ackResult a.payload = ackAbort ∨
      ackResult a.payload = ackComplete) (hbusy : s.manager.state ≠ .idle) :
    (s.deliverUp e a).manager.state = .idle := by
  change (s.manager.onFileAck (Transfer.managerContext e) [] s.manager.leafMac
    (a.payload.getD 0 0) (ackResult a.payload) (ackRef a.payload) (a.payload.drop 6)).1.1.state =
      .idle
  rw [Manager.onFileAck, htype, if_neg (by simp [Manager.isBusy, hbusy])]
  unfold Manager.dispatchFileAck
  rcases hr with hr | hr | hr <;> rw [hr]
  · rfl
  · rfl
  · simp only [ackComplete, Manager.handleComplete]
    split_ifs <;> first | rfl | contradiction

/-- Only a `COMPLETE` makes the manager succeed. -/
theorem success_up {e : Transfer.Env} {a : Ack} (hs : Succeeds s (s.deliverUp e a)) :
    ackResult a.payload = ackComplete := by
  obtain ⟨hbusy, hidle, herr⟩ := hs
  rcases s.manager.onFileAck_moves (e := e) [] s.manager.leafMac (a.payload.getD 0 0)
    (ackResult a.payload) (ackRef a.payload) (a.payload.drop 6) with ⟨hcore, -⟩ | ⟨-, c, hr, hm⟩
  · have hstate := congrArg Core.state hcore
    exact absurd (hstate.symm.trans hidle) hbusy
  have hfail (hc : c.state ≠ .idle) : ackResult a.payload = ackComplete :=
    absurd herr (lastError_ne_of_moves hm hc hidle)
  cases hr with
  | success hr => exact hr
  | complete hr => exact hr
  | accept => exact hfail (by simp)
  | last => exact hfail (by simp)
  | next => exact hfail (by simp)
  | full => exact hfail (by simp)
  | gaps => exact hfail (by simp)
  | misfit | reject | abort | exhausted => exact hfail hbusy

/-- A step that delivers no acknowledgement is no success. -/
theorem not_succeeds {H : ActionHandler η} {ev : Event η} (hev : ∀ e i, ev ≠ .up e i) :
    ¬ Succeeds s (Transfers.step H s ev) := by
  rintro ⟨hbusy, hidle, herr⟩
  cases ev with
  | start e mac o maxFrame => exact state_startTransfer hbusy hidle
  | source sequence data =>
    have hstate := congrArg Core.state (s.manager.core_onSourceChunk sequence data)
    exact hbusy (hstate.symm.trans hidle)
  | sourceAbort e reason =>
    exact lastError_ne_of_moves (s.manager.onSourceAbort_moves (e := e) [] reason) hbusy hidle herr
  | managerLoop e => exact lastError_ne_of_moves (s.manager.loop_moves (e := e) []) hbusy hidle herr
  | receiverLoop e => exact hbusy hidle
  | receiverAbort e reason notifySender => exact hbusy hidle
  | configure otaEnabled deepSleepActive maxChunk => exact hbusy hidle
  | restart handlers => exact hbusy hidle
  | up e i => exact hev e i rfl
  | down e i =>
    refine hbusy (Eq.trans ?_ hidle)
    change s.manager.state = ((s.downlink[i]?).elim s fun f => s.deliverDown H e f).manager.state
    cases s.downlink[i]? with
    | none => rfl
    | some f =>
      rw [Option.elim_some, State.deliverDown]
      split
      · rfl
      · dsimp only
        split <;> rfl
      · rfl

/-- The outcome of an undisturbed step belongs to the current transfer. -/
theorem outcomeBound (h : Ledger s) {H : ActionHandler η} {ev : Event η} (hu : Undisturbed s ev) :
    OutcomeBound s ev (Transfers.step H s ev) := by
  constructor
  · rintro a ⟨e, i, rfl, hi⟩ hforeign hbusy
    change ((s.uplink[i]?).elim s fun a => s.deliverUp e a).manager.state ≠ .idle
    rw [hi]
    exact h.foreign_up (List.mem_of_getElem? hi) hforeign hbusy (hu a hi hbusy hforeign)
  · intro hs
    by_cases hev : ∀ e i, ev ≠ .up e i
    · exact absurd hs (not_succeeds hev)
    push Not at hev
    obtain ⟨e, i, rfl⟩ := hev
    have hbusy := hs.1
    change Succeeds s ((s.uplink[i]?).elim s fun a => s.deliverUp e a) at hs
    cases hi : s.uplink[i]? with
    | none =>
      rw [hi] at hs
      exact absurd hs.2.1 hbusy
    | some a =>
      rw [hi] at hs
      have hr := success_up hs
      have hnot : ¬ Foreign s a := fun hf => (hu a hi hbusy hf).2.2.1 hr
      obtain ⟨hending, ht, hfile⟩ := h.complete_current hbusy (List.mem_of_getElem? hi) hr hnot
      exact ⟨hending, a, ⟨e, i, rfl, hi⟩, hr, ht, hfile⟩

end Ledger

/-- In a run without disturbances, the outcome of every step belongs to the current transfer: no
answer that was meant for another transfer ends it, and it succeeds only in `ENDING`, by a
`COMPLETE` that the receiver has sent for its file.  What disturbs is a foreign `COMPLETE`, `ABORT`
or `REJECT`, which the manager takes in every busy state, and a late `ANNOUNCE` that finds the
receiver idle. -/
theorem outcome_bound (H : ActionHandler η) (s : State η)
    (h : Transition.Reachable Initial (fun s ev => Possible H s ev ∧ Undisturbed s ev) (step H) s)
    (ev : Event η) (hu : Undisturbed s ev) :
    OutcomeBound s ev (step H s ev) := by
  have hledger : Ledger s :=
    h.invariant (I := Ledger) (fun _ => Ledger.initial) fun _ _ hl ⟨hp, hu⟩ => hl.step hp hu
  exact hledger.outcomeBound hu

/-! ### Two transfers -/

/-- An environment at time `now` in which every send succeeds, with counters from `tx` on. -/
def env (now tx : UInt32) : Transfer.Env where
  now := now
  ackSent _ := true
  frameSent n := (.ok, tx + UInt32.ofNat n)
  targetReachable := true

/-- A leaf that restarts after an update. -/
def flasherState : State Unit :=
  { receiver := { handlers := fun a => if a == 2 then some () else none } }

theorem initial_flasherState : Initial flasherState := ⟨_, {}, rfl⟩

def smallFile : Offer := ⟨3, Octets.zero 16, 2, Octets.zero 12⟩

/-- A transfer up to the first `COMPLETE`. -/
def firstTransfer : List (Event Unit) :=
  [.start (env 1000 1) (Octets.zero 6) smallFile 250, .down (env 1001 0) 0, .up (env 1002 0) 0,
    .source 0 [1, 2, 3], .managerLoop (env 1003 2), .down (env 1004 0) 1, .down (env 1005 0) 2,
    .up (env 1006 4) 1, .down (env 1007 0) 3, .receiverLoop (env 2100 0)]

def flasherEnd (events : List (Event Unit)) : State Unit :=
  Transition.runFrom (step Run.flasher) flasherState events

/-- The next transfer, until the manager waits for the `GAPS`; the `ACCEPT` of the first one comes again. -/
def awaitingGaps : List (Event Unit) :=
  firstTransfer ++ [.up (env 2101 0) 3, .restart flasherState.receiver.handlers,
    .start (env 3201 5) (Octets.zero 6) smallFile 250, .up (env 3202 0) 0, .down (env 3203 0) 4,
    .up (env 3204 0) 4, .source 0 [4, 5, 6], .managerLoop (env 3205 6)]

/-- And until its `COMPLETE`; the `GAPS` of the first one come again. -/
def lateAnswers : List (Event Unit) :=
  awaitingGaps ++ [.up (env 3206 0) 1, .down (env 3207 0) 5, .down (env 3208 0) 6, .up (env 3209 8) 5,
    .down (env 3210 0) 7, .receiverLoop (env 4300 0)]

/-- Two transfers in a row.  The late `GAPS` of the first one does not end the second, which succeeds
with its own `COMPLETE`. -/
theorem outcome_bound_lateAnswers :
    (flasherEnd awaitingGaps).manager.state = .waitingGaps ∧
      (∃ a ∈ (flasherEnd awaitingGaps).uplink[1]?, Foreign (flasherEnd awaitingGaps) a) ∧
      (step Run.flasher (flasherEnd awaitingGaps) (.up (env 3206 0) 1)).manager.state ≠ .idle ∧
      Succeeds (flasherEnd lateAnswers) (step Run.flasher (flasherEnd lateAnswers) (.up (env 4301 0) 7)) ∧
      (flasherEnd lateAnswers).manager.state = .ending ∧ (flasherEnd lateAnswers).started = 2 ∧
      ∃ a, (Event.up (η := Unit) (env 4301 0) 7).Delivers (flasherEnd lateAnswers) a ∧
        a.transfer = (flasherEnd lateAnswers).started := by
  have hwaiting : (flasherEnd awaitingGaps).manager.state = .waitingGaps := by decide +kernel
  have hreach (events : List (Event Unit)) (hadmits : Transition.Admits
      (fun s ev => Possible Run.flasher s ev ∧ Undisturbed s ev) (step Run.flasher) flasherState events) :
      Transition.Reachable Initial (fun s ev => Possible Run.flasher s ev ∧ Undisturbed s ev) (step Run.flasher)
        (flasherEnd events) :=
    Transition.Reachable.runFrom (.start initial_flasherState) hadmits
  have hs : Succeeds (flasherEnd lateAnswers)
      (step Run.flasher (flasherEnd lateAnswers) (.up (env 4301 0) 7)) := by
    refine ⟨?_, ?_, ?_⟩ <;> decide +kernel
  have hfirst := outcome_bound Run.flasher _ (hreach awaitingGaps (by decide +kernel)) (.up (env 3206 0) 1)
    (by decide +kernel)
  have hsecond := outcome_bound Run.flasher _ (hreach lateAnswers (by decide +kernel)) (.up (env 4301 0) 7)
    (by decide +kernel)
  have hlate : ∃ a ∈ (flasherEnd awaitingGaps).uplink[1]?, Foreign (flasherEnd awaitingGaps) a := by decide +kernel
  obtain ⟨gaps, hgaps, hforeign⟩ := hlate
  have hgoing := hfirst.foreign gaps ⟨_, _, rfl, hgaps⟩ hforeign (by rw [hwaiting]; decide)
  obtain ⟨hending, a, hdelivers, -, htransfer, -⟩ := hsecond.success hs
  exact ⟨hwaiting, ⟨gaps, hgaps, hforeign⟩, hgoing, hs, hending, by decide +kernel, a, hdelivers, htransfer⟩

/-- The leaf repeats its `COMPLETE` while the next transfer is announced. -/
def secondTransfer : List (Event Unit) :=
  firstTransfer ++ [.up (env 2101 0) 3, .receiverLoop (env 3200 0),
    .start (env 3201 5) (Octets.zero 6) smallFile 250]

/-- The `COMPLETE` of the first transfer ends the second one, and with success. -/
theorem not_outcomeBound_secondTransfer :
    Transition.Reachable Initial (Possible Run.flasher) (step Run.flasher)
        (flasherEnd secondTransfer) ∧
      Possible Run.flasher (flasherEnd secondTransfer) (.up (env 3202 0) 4) ∧
      ¬ OutcomeBound (flasherEnd secondTransfer) (.up (env 3202 0) 4)
        (step Run.flasher (flasherEnd secondTransfer) (.up (env 3202 0) 4)) := by
  refine ⟨Transition.Reachable.runFrom (.start initial_flasherState) (by decide +kernel),
    by decide +kernel, fun h => ?_⟩
  have hs : Succeeds (flasherEnd secondTransfer)
      (step Run.flasher (flasherEnd secondTransfer) (.up (env 3202 0) 4)) := by
    refine ⟨?_, ?_, ?_⟩ <;> decide +kernel
  have hending := (h.success hs).1
  revert hending
  decide +kernel

end Transfers

end EspTree
