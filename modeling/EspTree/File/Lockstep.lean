import EspTree.File.Replies

/-!
# The two ends advance in lockstep

An acknowledgement of the receiver names no increment, only the counter of the `BLAST_COMPLETE`
that it answers, and the manager keeps the counters of those that it has sent for the increment it
is at.  It forgets them when it leaves the increment and at each round of gaps.

One transfer runs here over a radio that loses, repeats, delays and reorders, from the moment when
both ends have taken it up.  An acknowledgement that could not be sent is not on the radio.  `held`
collects the chunks that the receiver has ever had in its buffer, by increment and position.
-/

namespace EspTree

open Wire FileReceiver OtaManager

namespace Lockstep

variable {η : Type}

/-! ## The system -/

/-- Both ends of the transfer, and everything they have sent. -/
structure State (η : Type) where
  receiver : Receiver η
  manager : Manager
  downlink : List Transfer.Down := []
  uplink : List Bytes := []
  held : Finset (Nat × Nat) := ∅

/-- The receiver's surroundings. -/
def receiverContext (H : ActionHandler η) (e : Transfer.Env) :
    FileReceiver.Context η (List Bytes) :=
  FileReceiver.context H ⟨e.now, e.ackSent⟩

/-- Of the acknowledgements of a call, those that could be sent. -/
def sentAcks (e : Transfer.Env) (acks : List Bytes) : List Bytes :=
  (acks.zipIdx.filter fun a => e.ackSent a.2).map (·.1)

namespace State

/-- The receiver has made a call, with these acknowledgements. -/
def heard (s : State η) (e : Transfer.Env) (r : Receiver η) (acks : List Bytes) : State η :=
  { s with
    receiver := r
    uplink := s.uplink ++ sentAcks e acks
    held := s.held ∪ marked r }

/-- A frame reaches the leaf. -/
def deliverDown (H : ActionHandler η) (e : Transfer.Env) (f : Transfer.Down) (s : State η) :
    State η :=
  match f.type with
  | .fileData => s.heard e (s.receiver.handleFileData (receiverContext H e) f.payload).1 []
  | .fileTransfer =>
    let r := Transfer.noteTxCounter s.receiver f.txCounter f.payload
    let (r, acks, _) := r.handleFileTransfer (receiverContext H e) [] f.payload
    s.heard e r acks
  | _ => s

/-- An acknowledgement reaches the bridge. -/
def deliverUp (e : Transfer.Env) (ack : Bytes) (s : State η) : State η :=
  let ((m, frames), _) := s.manager.onFileAck (Transfer.managerContext e) s.downlink
    s.manager.leafMac (ack.getD 0 0) (ackResult ack) (ackRef ack) (ack.drop 6)
  { s with manager := m, downlink := frames }

end State

/-- The steps of the transfer. -/
inductive Event
  | source (sequence : Nat) (data : Bytes)
  | sourceAbort (e : Transfer.Env) (reason : UInt8)
  | managerLoop (e : Transfer.Env)
  | receiverLoop (e : Transfer.Env)
  | receiverAbort (e : Transfer.Env) (reason : UInt8) (notifySender : Bool)
  | down (e : Transfer.Env) (i : Nat)
  | up (e : Transfer.Env) (i : Nat)

/-- One step. -/
def step (H : ActionHandler η) (s : State η) : Event → State η
  | .source sequence data => { s with manager := (s.manager.onSourceChunk sequence data).1 }
  | .sourceAbort e reason =>
    let (m, frames) := s.manager.onSourceAbort (Transfer.managerContext e) s.downlink reason
    { s with manager := m, downlink := frames }
  | .managerLoop e =>
    let (m, frames) := s.manager.loop (Transfer.managerContext e) s.downlink
    { s with manager := m, downlink := frames }
  | .receiverLoop e =>
    let (r, acks) := s.receiver.loop (receiverContext H e) []
    s.heard e r acks
  | .receiverAbort e reason notifySender =>
    let (r, acks) := s.receiver.abort (receiverContext H e) [] reason notifySender
    s.heard e r acks
  | .down e i => (s.downlink[i]?).elim s fun f => s.deliverDown H e f
  | .up e i => (s.uplink[i]?).elim s fun ack => s.deliverUp e ack

/-! ## The opening -/

/-- An idle receiver, what the bridge is asked to send, and the surroundings of the three calls
that open the transfer. -/
structure Opening (η : Type) where
  receiver : Receiver η
  config : OtaManager.Config
  leafMac : Mac
  offer : Offer
  maxFramePayload : Nat
  env : Transfer.Env

namespace Opening

variable (o : Opening η) (H : ActionHandler η)

/-- The manager after `start_transfer`. -/
def announcing : Manager :=
  (({ config := o.config } : Manager).startTransfer (Transfer.managerContext o.env) [] o.leafMac
    o.offer.fileSize o.offer.md5 o.offer.action o.maxFramePayload o.offer.fileId).1

/-- The `ANNOUNCE` as the receiver reads it. -/
def announce : Announce := Receiver.parseAnnounce o.announcing.announcePayload.tail

/-- The receiver after the `ANNOUNCE`, with its answer. -/
def announced : Receiver η × List Bytes :=
  let m := o.announcing
  let r := Transfer.noteTxCounter o.receiver m.announceTxCounter m.announcePayload
  let (r, acks, _) := r.handleFileTransfer (receiverContext H o.env) [] m.announcePayload
  (r, acks)

/-- The transfer after the manager has handled the answer. -/
def opened : State η :=
  let (r, acks) := o.announced H
  let ack := acks.getD 0 []
  let ((m, frames), _) := o.announcing.onFileAck (Transfer.managerContext o.env) []
    o.announcing.leafMac (ack.getD 0 0) (ackResult ack) (ackRef ack) (ack.drop 6)
  { receiver := r, manager := m, downlink := frames, held := marked r }

/-- Both ends have taken up the transfer.  The receiver's buffer size fits the byte in which the
`ACCEPT` carries it; the handler for updates asks for `ESPNOW_MAX_INCREMENT_KB`, which is 8. -/
structure Accepted : Prop where
  idle : o.receiver.state = .idle
  off : o.receiver.inCompletePhase = false
  receiving : (o.opened H).receiver.state = .receiving
  blasting : (o.opened H).manager.state = .blasting
  buffer : (o.opened H).receiver.bufferSizeKb < 256

/-- The geometry of the transfer. -/
def geometry : Geometry := (o.opened H).receiver.geometry

/-- The states of the transfer, as long as no counter is used for two frames. -/
def Reachable : State η → Prop :=
  Transition.Reachable (· = o.opened H)
    (fun s ev => ((step H s ev).downlink.map (·.txCounter)).Nodup) (step H)

end Opening

/-! ## The property -/

/-- The receiver has held every chunk of increment `k`. -/
def HeldAll (g : Geometry) (held : Finset (Nat × Nat)) (k : Nat) : Prop :=
  ∀ i < g.chunksInIncrement k, (k, i) ∈ held

/-- The `BLAST_COMPLETE` of increment `k` under counter `tx`. -/
def blast (k : Nat) (tx : UInt32) : Transfer.Down := ⟨tx, .fileTransfer, [0x03] ++ leEncode 2 k⟩

/-- An `END`. -/
def IsEnd (f : Transfer.Down) : Prop := f.type = .fileTransfer ∧ f.payload.head? = some 0x01

/-- The handler accepts every call of `on_data`. -/
def Accepting (H : ActionHandler η) : Prop := ∀ h sequence data, (H.onData h sequence data).2 = true

/-- While both ends are in the transfer, the receiver is at the manager's increment or one ahead.
The manager has left only increments that the receiver has held completely, and has sent `END` only
after all of them were.  A `GAPS` for a `BLAST_COMPLETE` of an earlier increment leaves the manager
as it was, but for the time of the last activity. -/
structure InLockstep (H : ActionHandler η) (g : Geometry) (s : State η) : Prop where
  le : s.manager.state ≠ .idle → s.receiver.state ≠ .idle →
    s.manager.tracker.currentIncrement ≤ s.receiver.currentIncrement
  le_succ : s.manager.state ≠ .idle → s.receiver.state ≠ .idle →
    s.receiver.currentIncrement ≤ s.manager.tracker.currentIncrement + 1
  left : s.manager.state ≠ .idle → ∀ k < s.manager.tracker.currentIncrement, HeldAll g s.held k
  ended : (∃ f ∈ s.downlink, IsEnd f) → ∀ k < g.totalIncrements, HeldAll g s.held k
  earlier : ∀ e i ack k, s.uplink[i]? = some ack → ackResult ack = ackGaps →
    blast k (ackRef ack) ∈ s.downlink → k < s.manager.tracker.currentIncrement →
    (step H s (.up e i)).downlink = s.downlink ∧
      ((step H s (.up e i)).manager = s.manager ∨
        (step H s (.up e i)).manager = s.manager.noteActivity (Transfer.managerContext e))

/-! ## The manager's side -/

/-- What was held once is held for good. -/
theorem HeldAll.mono {g : Geometry} {held held' : Finset (Nat × Nat)} {k : Nat}
    (h : HeldAll g held k) (hle : held ⊆ held') : HeldAll g held' k :=
  fun i hi => hle (h i hi)

/-- A `BLAST_COMPLETE` shows its increment. -/
theorem blast_inj {k l : Nat} {tx tx' : UInt32} (hk : k < 2 ^ 16) (hl : l < 2 ^ 16)
    (h : blast k tx = blast l tx') : k = l := by
  have hpay : [0x03] ++ leEncode 2 k = [0x03] ++ leEncode 2 l := congrArg Transfer.Down.payload h
  have hdec := congrArg leDecode (List.append_cancel_left hpay)
  rw [leDecode_leEncode, leDecode_leEncode] at hdec
  omega

/-- What holds between the manager, its frames and the chunks that the receiver has held. -/
structure Sending (g : Geometry) (held : Finset (Nat × Nat)) (c : Core)
    (frames : List Transfer.Down) : Prop where
  opened : c.state ≠ .announcing
  geometry : c.state ≠ .idle → c.geometry = g
  current : c.state ≠ .idle → c.currentIncrement < g.totalIncrements
  quiet : ∀ f ∈ frames, f.type = .fileTransfer → f.payload.head? ≠ some 0x00
  blasts : ∀ f ∈ frames, f.type = .fileTransfer → f.payload.head? = some 0x03 →
    ∃ k < 2 ^ 16, f = blast k f.txCounter ∧ (c.state ≠ .idle → k ≤ c.currentIncrement)
  history : ∀ tx ∈ c.blastCompleteTxHistory, blast c.currentIncrement tx ∈ frames
  left : c.state ≠ .idle → ∀ k < c.currentIncrement, HeldAll g held k
  ending : c.state = .ending → ∀ k < g.totalIncrements, HeldAll g held k
  ended : (∃ f ∈ frames, IsEnd f) → ∀ k < g.totalIncrements, HeldAll g held k

namespace Sending

variable {g : Geometry} {held : Finset (Nat × Nat)} {c : Core} {frames : List Transfer.Down}

/-- One more frame.  What is new about it depends on its phase. -/
theorem push (h : Sending g held c frames) {f : Transfer.Down}
    (hquiet : f.type = .fileTransfer → f.payload.head? ≠ some 0x00)
    (hblast : f.type = .fileTransfer → f.payload.head? = some 0x03 →
      ∃ k < 2 ^ 16, f = blast k f.txCounter ∧ (c.state ≠ .idle → k ≤ c.currentIncrement))
    (hend : IsEnd f → c.state = .ending) : Sending g held c (frames ++ [f]) where
  opened := h.opened
  geometry := h.geometry
  current := h.current
  quiet g' hg' := by
    rcases List.mem_append.mp hg' with hg' | hg'
    · exact h.quiet g' hg'
    · rw [List.mem_singleton.mp hg']
      exact hquiet
  blasts g' hg' := by
    rcases List.mem_append.mp hg' with hg' | hg'
    · exact h.blasts g' hg'
    · rw [List.mem_singleton.mp hg']
      exact hblast
  history tx htx := List.mem_append_left _ (h.history tx htx)
  left := h.left
  ending := h.ending
  ended := by
    rintro ⟨g', hg', he⟩
    rcases List.mem_append.mp hg' with hg' | hg'
    · exact h.ended ⟨g', hg', he⟩
    · rw [List.mem_singleton.mp hg'] at he
      exact h.ending (hend he)

/-- The receiver holds more. -/
theorem mono (h : Sending g held c frames) {held' : Finset (Nat × Nat)} (hle : held ⊆ held') :
    Sending g held' c frames :=
  { h with
    left := fun hs k hk => (h.left hs k hk).mono hle
    ending := fun hs k hk => (h.ending hs k hk).mono hle
    ended := fun hf k hk => (h.ended hf k hk).mono hle }

/-- A transfer that has failed sends nothing more. -/
theorem idle (h : Sending g held c frames) (message : String) :
    Sending g held (Core.idle message) frames where
  opened := by simp [Core.idle]
  geometry hs := absurd rfl hs
  current hs := absurd rfl hs
  quiet := h.quiet
  blasts f hf ht hp :=
    let ⟨k, hk, heq, _⟩ := h.blasts f hf ht hp
    ⟨k, hk, heq, fun hs => absurd rfl hs⟩
  history tx htx := absurd htx List.not_mem_nil
  left hs := absurd rfl hs
  ending hs := by simp [Core.idle] at hs
  ended := h.ended

/-- A change within the current increment. -/
theorem turn (h : Sending g held c frames) {c' : Core} (hbusy : c.state ≠ .idle)
    (hstate : c'.state = .blasting ∨ c'.state = .waitingGaps) (hgeo : c'.geometry = c.geometry)
    (hcur : c'.currentIncrement = c.currentIncrement)
    (hhist : ∀ tx ∈ c'.blastCompleteTxHistory, blast c.currentIncrement tx ∈ frames) :
    Sending g held c' frames where
  opened := by rcases hstate with hs | hs <;> rw [hs] <;> decide
  geometry _ := hgeo.trans (h.geometry hbusy)
  current _ := hcur ▸ h.current hbusy
  quiet := h.quiet
  blasts f hf ht hp :=
    let ⟨k, hk, heq, hle⟩ := h.blasts f hf ht hp
    ⟨k, hk, heq, fun _ => hcur ▸ hle hbusy⟩
  history tx htx := hcur ▸ hhist tx htx
  left _ := hcur ▸ h.left hbusy
  ending hs := by rcases hstate with hs' | hs' <;> rw [hs'] at hs <;> cases hs
  ended := h.ended

/-- A move of the manager sends what its increment allows: `BLAST_COMPLETE` for the present
increment, and `END` only after the last one. -/
theorem move (hinc : g.totalIncrements < 2 ^ 16) {c c' : Core} {fs fs' : List Transfer.Down}
    (hm : Move (c, fs) (c', fs')) (h : Sending g held c fs) : Sending g held c' fs' := by
  cases hm with
  | data tx payload hs => exact h.push (by simp) (by simp) (by simp [IsEnd])
  | announce tx a hs => exact absurd hs h.opened
  | blast tx history hs hh =>
    have hbusy : c.state ≠ .idle := by rcases hs with hs | hs <;> rw [hs] <;> decide
    have hcur := h.current hbusy
    have hpush : Sending g held c (fs ++ [Lockstep.blast c.currentIncrement tx]) :=
      h.push (by simp [Lockstep.blast])
        (fun _ _ => ⟨c.currentIncrement, by omega, rfl, fun _ => le_rfl⟩)
        (by simp [IsEnd, Lockstep.blast])
    refine hpush.turn hbusy hs rfl rfl fun t ht => ?_
    rcases hh t ht with ht | rfl
    · exact hpush.history t ht
    · exact List.mem_append_right _ (List.mem_singleton_self _)
  | wait hs => exact h.turn (by rw [hs]; decide) (.inr rfl) rfl rfl h.history
  | finish tx hs => exact h.push (by simp) (by simp) fun _ => hs
  | abort tx reason hs => exact h.push (by simp) (by simp) (by simp [IsEnd])
  | fail message hs hm => exact h.idle message

/-- So does every call. -/
theorem moves (hinc : g.totalIncrements < 2 ^ 16) {c c' : Core} {fs fs' : List Transfer.Down}
    (hm : Moves (c, fs) (c', fs')) (h : Sending g held c fs) : Sending g held c' fs' :=
  hm.invariant (I := Sending g held) (fun hmove hi => hi.move hinc hmove) h

end Sending

/-! ## The receiver's side -/

/-- What holds of a receiver that is in the transfer. -/
structure Along (g : Geometry) (held : Finset (Nat × Nat)) (r : Receiver η) : Prop where
  geometry : r.geometry = g
  more : r.currentIncrement < g.totalIncrements
  earlier : ∀ k < r.currentIncrement, HeldAll g held k
  collecting : r.state = .receiving → Collecting r
  current : r.state = .receiving → ∀ i < g.chunksInIncrement r.currentIncrement,
    r.incrementBuf.isChunkReceived i = true → (r.currentIncrement, i) ∈ held

/-- What a call other than a `BLAST_COMPLETE` does to the increment: it ends the transfer or keeps
the increment. -/
def Passes (r r' : Receiver η) : Prop :=
  r'.state = .idle ∨ r.state ≠ .idle ∧ r'.geometry = r.geometry ∧
    r'.currentIncrement = r.currentIncrement ∧
    (r'.state = .receiving → r.state = .receiving ∧ (Collecting r → Collecting r'))

/-- A call that leaves the increment alone passes nothing on. -/
theorem Passes.of_same {r r' : Receiver η} (hstate : r'.state = r.state)
    (hgeo : r'.geometry = r.geometry) (hcur : r'.currentIncrement = r.currentIncrement)
    (hc : Collecting r → Collecting r') : Passes r r' := by
  by_cases hidle : r.state = .idle
  · exact .inl (hstate.trans hidle)
  · exact .inr ⟨hidle, hgeo, hcur, fun hrec => ⟨hstate.symm.trans hrec, hc⟩⟩

section Calls

variable (H : ActionHandler η) (e : FileReceiver.Env) (r : Receiver η)

theorem passes_handleEnd : Passes r (r.handleEnd (context H e) []).1 := by
  unfold Receiver.handleEnd
  split
  · exact .of_same rfl rfl rfl id
  next hst =>
  have hwait : r.state = .waitingEnd := by simpa using hst
  split
  · dsimp only
    split
    · refine .inr ⟨by rw [hwait]; decide, rfl, rfl, fun hrec => ?_⟩
      simp [Receiver.setHandler] at hrec
    · exact .inl rfl
  · exact .of_same rfl rfl rfl id

theorem passes_handleAbort (reason : UInt8) : Passes r (r.handleAbort (context H e) reason) := by
  unfold Receiver.handleAbort
  split
  · exact .of_same rfl rfl rfl id
  · exact .inl rfl

/-- The loop of the receiver does not move it to another increment. -/
theorem passes_loop : Passes r (r.loop (context H e) []).1 := by
  obtain ⟨pending, restarted, hr⟩ := performRestartIfDue_eq H e r
  unfold Receiver.loop
  rw [hr]
  dsimp only
  repeat' split
  all_goals first
    | exact .inl rfl
    | exact .of_same rfl rfl rfl fun hc => { hc with }

/-- Data fills the buffer of the present increment. -/
theorem passes_handleFileData (payload : Bytes) :
    Passes r (r.handleFileData (context H e) payload).1 := by
  rcases handleFileData_stores H e r payload with ⟨now, heq⟩ | ⟨i, buf, hstate, heq, -, hc⟩
  · rw [heq]
    exact .of_same rfl rfl rfl fun hc => { hc with }
  · rw [heq]
    exact .of_same rfl rfl rfl hc

/-- A control packet that is neither an `ANNOUNCE` nor a `BLAST_COMPLETE`. -/
theorem passes_handleFileTransfer (payload : Bytes) (h₀ : payload.head? ≠ some 0x00)
    (h₃ : payload.head? ≠ some 0x03) :
    Passes r (r.handleFileTransfer (context H e) [] payload).1 := by
  unfold Receiver.handleFileTransfer
  split
  · exact .of_same rfl rfl rfl id
  next phase body =>
  dsimp only
  have htouch {r' : Receiver η} (h : Passes { r with lastActivityMs := (context H e).now } r') :
      Passes r r' :=
    h.imp_right fun ⟨hbusy, hgeo, hcur, hrec⟩ =>
      ⟨hbusy, hgeo, hcur, fun hs => ⟨(hrec hs).1, fun hc => (hrec hs).2 { hc with }⟩⟩
  apply htouch
  split_ifs with hp₀ _ hp₁ _ hp₂ _ hp₃
  · exact absurd (by simpa using hp₀) h₀
  · exact .of_same rfl rfl rfl id
  · exact passes_handleEnd H e _
  · exact .of_same rfl rfl rfl id
  · exact passes_handleAbort H e _ _
  · exact .of_same rfl rfl rfl id
  · exact absurd (by simpa using hp₃) h₃
  · exact .of_same rfl rfl rfl id
  · exact .of_same rfl rfl rfl id

end Calls

/-- What is marked has been held. -/
theorem Along.of_marked {g : Geometry} {held : Finset (Nat × Nat)} {r : Receiver η}
    (hgeo : r.geometry = g) (hmore : r.currentIncrement < g.totalIncrements)
    (hearlier : ∀ k < r.currentIncrement, HeldAll g held k)
    (hc : r.state = .receiving → Collecting r) : Along g (held ∪ marked r) r where
  geometry := hgeo
  more := hmore
  earlier k hk := (hearlier k hk).mono Finset.subset_union_left
  collecting := hc
  current hs i hi hbit := by
    refine Finset.mem_union_right _ (mem_marked.mpr ⟨rfl, ?_, hbit⟩)
    rw [(hc hs).counted.expected, hgeo]
    exact hi

/-- The receiver stays with the chunks that it has held, or goes on when the increment is complete.
-/
theorem Along.passes {g : Geometry} {held : Finset (Nat × Nat)} {r r' : Receiver η}
    (h : Along g held r) (hp : Passes r r') (hbusy : r'.state ≠ .idle) :
    Along g (held ∪ marked r') r' := by
  obtain ⟨-, hgeo, hcur, hrec⟩ := hp.resolve_left hbusy
  refine .of_marked (hgeo.trans h.geometry) (hcur ▸ h.more) (hcur ▸ h.earlier) fun hs => ?_
  exact (hrec hs).2 (h.collecting (hrec hs).1)

/-! ## Both sides -/

/-- Where a `GAPS` comes from: it answers a `BLAST_COMPLETE`.  An empty bitmap says that the
receiver has held the increment, and has left it unless it is the last one; any other bitmap has a
gap. -/
def Answers (g : Geometry) (held : Finset (Nat × Nat)) (r : Receiver η)
    (frames : List Transfer.Down) (ack : Bytes) : Prop :=
  ∃ k bitmap, k < 2 ^ 16 ∧ blast k (ackRef ack) ∈ frames ∧
    ack.drop 6 = leEncode 2 bitmap.length ++ bitmap ∧ bitmap.length < 2 ^ 16 ∧
    (bitmap = [] → HeldAll g held k ∧
      (r.state = .idle ∨ k < r.currentIncrement ∨ g.totalIncrements ≤ k + 1)) ∧
    (bitmap ≠ [] → ∃ i < g.chunksInIncrement k, bitmapGet bitmap i = false)

/-- The invariant of the transfer. -/
structure Joint (g : Geometry) (s : State η) : Prop where
  sending : Sending g s.held s.manager.core s.downlink
  along : s.receiver.state ≠ .idle → Along g s.held s.receiver
  near : s.manager.state ≠ .idle → s.receiver.state ≠ .idle →
    s.manager.tracker.currentIncrement ≤ s.receiver.currentIncrement ∧
      s.receiver.currentIncrement ≤ s.manager.tracker.currentIncrement + 1
  acks : ∀ ack ∈ s.uplink, ackResult ack = ackGaps →
    Answers g s.held s.receiver s.downlink ack
  numbered : (s.downlink.map (·.txCounter)).Nodup

/-- An answer stays one when the receiver goes on. -/
theorem Answers.mono {g : Geometry} {held held' : Finset (Nat × Nat)} {r r' : Receiver η}
    {frames frames' : List Transfer.Down} {ack : Bytes} (h : Answers g held r frames ack)
    (hheld : held ⊆ held') (hframes : frames ⊆ frames')
    (hr : r'.state ≠ .idle → r.state ≠ .idle ∧ r.currentIncrement ≤ r'.currentIncrement) :
    Answers g held' r' frames' ack := by
  obtain ⟨k, bitmap, hk, hf, ht, hlen, hempty, hgap⟩ := h
  refine ⟨k, bitmap, hk, hframes hf, ht, hlen, fun hb => ?_, hgap⟩
  obtain ⟨hall, hpos⟩ := hempty hb
  refine ⟨hall.mono hheld, ?_⟩
  by_cases hidle : r'.state = .idle
  · exact .inl hidle
  obtain ⟨hbusy, hle⟩ := hr hidle
  rcases hpos with hi | hlt | hlast
  · exact absurd hi hbusy
  · exact .inr (.inl (by omega))
  · exact .inr (.inr hlast)

namespace Joint

variable {g : Geometry} {s : State η}

/-- The receiver makes a call. -/
theorem heard (h : Joint g s) {e : Transfer.Env} {r' : Receiver η} {acks : List Bytes}
    (halong : r'.state ≠ .idle → Along g (s.held ∪ marked r') r')
    (hcur : r'.state ≠ .idle → s.receiver.state ≠ .idle ∧
      s.receiver.currentIncrement ≤ r'.currentIncrement)
    (hnear : r'.state ≠ .idle → s.manager.state ≠ .idle →
      r'.currentIncrement ≤ s.manager.tracker.currentIncrement + 1)
    (hacks : ∀ ack ∈ sentAcks e acks, ackResult ack = ackGaps →
      Answers g (s.held ∪ marked r') r' s.downlink ack) : Joint g (s.heard e r' acks) where
  sending := h.sending.mono Finset.subset_union_left
  along := halong
  near hm hr := by
    obtain ⟨hbusy, hle⟩ := hcur hr
    exact ⟨(h.near hm hbusy).1.trans hle, hnear hr hm⟩
  acks ack hack hgaps := by
    rcases List.mem_append.mp hack with hack | hack
    · exact (h.acks ack hack hgaps).mono Finset.subset_union_left (List.Subset.refl _) hcur
    · exact hacks ack hack hgaps
  numbered := h.numbered

/-- A call that passes, and sends no `GAPS`. -/
theorem passes (h : Joint g s) {e : Transfer.Env} {r₀ r' : Receiver η} {acks : List Bytes}
    (hp : Passes r₀ r') (hstate : r₀.state = s.receiver.state)
    (hcur : r₀.currentIncrement = s.receiver.currentIncrement)
    (hgeo : r₀.geometry = s.receiver.geometry) (hc : Collecting s.receiver → Collecting r₀)
    (hacks : ∀ ack ∈ acks, ackResult ack ≠ ackGaps) : Joint g (s.heard e r' acks) := by
  have hp : Passes s.receiver r' := by
    refine hp.imp_right fun ⟨hbusy, hg, hk, hrec⟩ =>
      ⟨hstate ▸ hbusy, hg.trans hgeo, hk.trans hcur, fun hs => ?_⟩
    exact ⟨hstate ▸ (hrec hs).1, fun hcoll => (hrec hs).2 (hc hcoll)⟩
  refine h.heard (fun hbusy => ?_) (fun hbusy => ?_) (fun hbusy hm => ?_) fun ack hack hgaps => ?_
  · exact (h.along (hp.resolve_left hbusy).1).passes hp hbusy
  · obtain ⟨hold, -, hcur, -⟩ := hp.resolve_left hbusy
    exact ⟨hold, hcur.ge⟩
  · obtain ⟨hold, -, hcur, -⟩ := hp.resolve_left hbusy
    rw [hcur]
    exact (h.near hm hold).2
  · refine absurd hgaps (hacks ack ?_)
    obtain ⟨⟨a, i⟩, hmem, rfl⟩ := List.mem_map.mp hack
    exact List.fst_mem_of_mem_zipIdx (List.mem_of_mem_filter hmem)

/-! ### `BLAST_COMPLETE` -/

/-- An accepting handler takes all chunks in the first pass. -/
theorem flashPass_accepting {H : ActionHandler η} (hH : Accepting H) (slices : List (Nat × Bytes))
    (h : η) : (flashPass H h slices).2 = true := by
  induction slices generalizing h with
  | nil => rfl
  | cons slice rest ih =>
    obtain ⟨sequence, data⟩ := slice
    have hone := hH h sequence data
    rw [flashPass]
    rcases hd : H.onData h sequence data with ⟨h', accepted⟩
    rw [hd] at hone
    obtain rfl : accepted = true := hone
    exact ih h'

/-- The bitmap of a `GAPS`. -/
theorem gapsBitmap?_of_drop {ack bitmap : Bytes} (hr : ackResult ack = ackGaps)
    (ht : ack.drop 6 = leEncode 2 bitmap.length ++ bitmap) : gapsBitmap? ack = some bitmap := by
  have hbitmap : ack.drop 8 = bitmap := by
    rw [show (8 : Nat) = 6 + 2 from rfl, ← List.drop_drop, ht]
    exact List.drop_left' (by simp)
  rw [gapsBitmap?, if_pos (by simpa [ackResult] using hr), hbitmap]

/-- A receiver that does not collect the increment, or an earlier one, is silent. -/
theorem handleBlastComplete_silent {H : ActionHandler η} {e : FileReceiver.Env} {r : Receiver η}
    {k : Nat} (h : r.state ≠ .receiving ∨ r.currentIncrement < k) :
    ∃ now ok, r.handleBlastComplete (context H e) [] k =
      ({ r with lastActivityMs := now }, [], ok) := by
  unfold Receiver.handleBlastComplete
  split
  · exact ⟨r.lastActivityMs, false, rfl⟩
  next hst =>
  have hrec : r.state = .receiving := by
    by_contra hne
    simp [hne] at hst
  have hlt : r.currentIncrement < k := h.resolve_left fun hne => hne hrec
  dsimp only
  rw [if_pos hlt]
  exact ⟨_, _, rfl⟩

/-- The `GAPS` of an answer answer the `BLAST_COMPLETE` if their bitmaps are right. -/
theorem answers_of_bitmaps (e : Transfer.Env) {k : Nat} {tx : UInt32} {r : Receiver η} (r' : Receiver η)
    {new : List Bytes} (held : Finset (Nat × Nat)) (hf : blast k tx ∈ s.downlink) (hk : k < 2 ^ 16)
    (htx : r.lastBlastCompleteTxCounter = tx) (hserves : ∀ ack ∈ new, AnswerTo r True False ack)
    (hcase : ∀ bitmap, some bitmap ∈ new.map gapsBitmap? → bitmap.length < 2 ^ 16 ∧
      (bitmap = [] → HeldAll g held k ∧
        (r'.state = .idle ∨ k < r'.currentIncrement ∨ g.totalIncrements ≤ k + 1)) ∧
      (bitmap ≠ [] → ∃ i < g.chunksInIncrement k, bitmapGet bitmap i = false)) :
    ∀ ack ∈ sentAcks e new, ackResult ack = ackGaps → Answers g held r' s.downlink ack := by
  intro ack hack hgaps
  obtain ⟨⟨a, i⟩, hmem, rfl⟩ := List.mem_map.mp hack
  have hnew := List.fst_mem_of_mem_zipIdx (List.mem_of_mem_filter hmem)
  cases hserves a hnew with
  | gaps bitmap hb hr href ht =>
    have hbitmap := gapsBitmap?_of_drop hr ht
    obtain ⟨hlen, hempty, hgap⟩ := hcase bitmap (hbitmap ▸ List.mem_map_of_mem hnew)
    refine ⟨k, bitmap, hk, ?_, ht, hlen, hempty, hgap⟩
    rw [show ackRef a = tx from href.trans htx]
    exact hf
  | abort hr => exact absurd (hgaps.symm.trans hr) (by decide)
  | complete hr => exact absurd (hgaps.symm.trans hr) (by decide)

/-- A buffer that is not complete has a chunk that was not received. -/
theorem exists_missing {r : Receiver η} (h : Collecting r) (hc : r.incrementBuf.isComplete = false) :
    ∃ i < r.geometry.chunksInIncrement r.currentIncrement, bitmapGet r.incrementBuf.receivedBitmap i = false := by
  have hnot : ¬ ∀ i < r.geometry.chunksInIncrement r.currentIncrement,
      r.incrementBuf.isChunkReceived i = true := by
    rw [← h.counted.isComplete_iff, hc]
    decide
  push Not at hnot
  obtain ⟨i, hi, hbit⟩ := hnot
  exact ⟨i, hi, by simpa [IncrementBuffer.isChunkReceived] using hbit⟩

/-- A `BLAST_COMPLETE` of an increment up to the receiver's own reaches a collecting receiver. -/
theorem blast_answered (h : Joint g s) {H : ActionHandler η} (hH : Accepting H) {e : Transfer.Env}
    {k : Nat} {tx : UInt32} {r r' : Receiver η} {new : List Bytes}
    (hf : blast k tx ∈ s.downlink) (hk : k < 2 ^ 16)
    (hmk : s.manager.state ≠ .idle → k ≤ s.manager.tracker.currentIncrement)
    (hrec : s.receiver.state = .receiving)
    (hr : r = { s.receiver with
      announceTxCounter := r.announceTxCounter
      lastBlastCompleteTxCounter := tx
      lastActivityMs := r.lastActivityMs })
    (hans : BlastAnswer H (e.ackSent 0) r k r' (new.map gapsBitmap?))
    (hserves : ∀ ack ∈ new, AnswerTo r True False ack) : Joint g (s.heard e r' new) := by
  have hbusy : s.receiver.state ≠ .idle := by rw [hrec]; decide
  have halong := h.along hbusy
  have hcoll : Collecting r := by
    rw [hr]
    exact { halong.collecting hrec with }
  have hstate : r.state = .receiving := by rw [hr]; exact hrec
  have hcur : r.currentIncrement = s.receiver.currentIncrement := by rw [hr]
  have hgeo : r.geometry = g := by rw [hr]; exact halong.geometry
  have htx : r.lastBlastCompleteTxCounter = tx := by rw [hr]
  have hbits : r.incrementBuf = s.receiver.incrementBuf := by rw [hr]
  have hmore := halong.more
  have hearlier := halong.earlier
  have hcurrent := halong.current hrec
  rw [← hcur] at hmore hearlier
  rw [← hcur, ← hbits] at hcurrent
  -- the answer of each case is read off its list of bitmaps
  have hacks (held : Finset (Nat × Nat)) := answers_of_bitmaps (g := g) e r' held hf hk htx hserves
  have hall (hc : r.incrementBuf.isComplete = true) : HeldAll g s.held r.currentIncrement := by
    intro i hi
    refine hcurrent i hi ?_
    exact hcoll.counted.isComplete_iff.mp hc i (hgeo ▸ hi)
  have hsame (hm : s.manager.state ≠ .idle) :
      r.currentIncrement ≤ s.manager.tracker.currentIncrement + 1 := by
    rw [hcur]
    exact (h.near hm hbusy).2
  generalize hmap : new.map gapsBitmap? = answers at hans hacks
  have hempties {held : Finset (Nat × Nat)} (hheld : HeldAll g held k)
      (hpos : r'.state = .idle ∨ k < r'.currentIncrement ∨ g.totalIncrements ≤ k + 1)
      (hlist : ∀ b ∈ answers, b = some []) :
      ∀ ack ∈ sentAcks e new, ackResult ack = ackGaps → Answers g held r' s.downlink ack := by
    refine hacks held fun bitmap hb => ?_
    obtain rfl : bitmap = [] := Option.some.inj (hlist _ hb)
    exact ⟨by simp, fun _ => ⟨hheld, hpos⟩, fun hne => absurd rfl hne⟩
  cases hans with
  | earlier hlt =>
    refine h.heard (fun _ => .of_marked hgeo hmore hearlier fun _ => hcoll)
      (fun _ => ⟨hbusy, hcur.ge⟩) (fun _ => hsame) ?_
    exact hempties ((hearlier k hlt).mono Finset.subset_union_left) (.inr (.inl hlt)) (by simp)
  | gaps hke hc hround =>
    refine h.heard (fun _ => .of_marked hgeo hmore hearlier fun _ =>
      { hcoll with round_le := hround }) (fun _ => ⟨hbusy, hcur.ge⟩) (fun _ => hsame)
      (hacks _ fun bitmap hb => ?_)
    obtain rfl : bitmap = r.incrementBuf.receivedBitmap := by simpa using hb
    have hn := hcoll.chunks_bounds r.currentIncrement
    have hlen := hcoll.counted.bitmap_length
    refine ⟨by omega, fun hnil => ?_, fun _ => ?_⟩
    · rw [hnil] at hlen
      simp only [List.length_nil] at hlen
      omega
    · rw [hke, ← hgeo]
      exact exists_missing hcoll hc
  | exhausted hke hc hround hended =>
    refine h.heard (absurd hended.1) (absurd hended.1) (absurd hended.1) (hacks _ fun bitmap hb => ?_)
    simp at hb
  | unsent hke hc hs =>
    refine h.heard (fun _ => .of_marked hgeo hmore hearlier fun hrec' => by cases hrec')
      (fun _ => ⟨hbusy, hcur.ge⟩) (fun _ => hsame) fun ack hack => ?_
    obtain ⟨a, rfl⟩ : ∃ a, new = [a] := List.length_eq_one_iff.mp (by
      simpa using congrArg List.length hmap)
    simp [sentAcks, hs] at hack
  | last hke hc hs ht hlast =>
    refine h.heard (fun _ => .of_marked hgeo hmore hearlier fun hrec' => by cases hrec')
      (fun _ => ⟨hbusy, hcur.ge⟩) (fun _ => hsame) ?_
    refine hempties ?_ (.inr (.inr ?_)) (by simp)
    · rw [hke]
      exact (hall hc).mono Finset.subset_union_left
    · rw [hke, ← hgeo]
      exact hlast
  | @next a h' hke hc hs ht hmore' ha =>
    have hheld : ∀ l < r.currentIncrement + 1, HeldAll g s.held l := by
      intro l hl
      rcases Nat.lt_succ_iff_lt_or_eq.mp hl with hlt | rfl
      · exact hearlier l hlt
      · exact hall hc
    refine h.heard (fun _ => .of_marked hgeo (hgeo ▸ hmore') hheld fun _ => ?_)
      (fun _ => ⟨hbusy, ?_⟩) (fun _ hm => ?_) ?_
    · exact hcoll.next h' ha hmore'
    · exact hcur.ge.trans (Nat.le_succ _)
    · have := hmk hm
      exact Nat.succ_le_succ (hke ▸ this)
    · refine hempties ?_ (.inr (.inl ?_)) (by simp)
      · rw [hke]
        exact (hall hc).mono Finset.subset_union_left
      · rw [hke]
        exact Nat.lt_succ_self _
  | refused hke hc hs ht hended =>
    refine absurd ?_ ht
    obtain ⟨a, h₀, -, hact⟩ := hcoll.active?
    exact ⟨h₀, hact, .inl (flashPass_accepting hH _ _)⟩

/-- A control packet reaches the leaf. -/
theorem deliverControl (h : Joint g s) {H : ActionHandler η} (hH : Accepting H) {e : Transfer.Env}
    {f : Transfer.Down} (hf : f ∈ s.downlink) (htype : f.type = .fileTransfer) :
    Joint g (s.deliverDown H e f) := by
  obtain ⟨a, b, hnote, -, hb⟩ := noteTxCounter_eq s.receiver f.txCounter f.payload
  have hquiet := h.sending.quiet f hf htype
  have hstep {r' : Receiver η} {acks : List Bytes} {ok : Bool}
      (hcall : Receiver.handleFileTransfer (receiverContext H e)
        { s.receiver with announceTxCounter := a, lastBlastCompleteTxCounter := b } [] f.payload =
          (r', acks, ok)) : s.deliverDown H e f = s.heard e r' acks := by
    simp only [State.deliverDown, htype, hnote, hcall]
  by_cases h₃ : f.payload.head? = some 0x03
  · obtain ⟨k, hk, heq, hmk⟩ := h.sending.blasts f hf htype h₃
    have hpay : f.payload = [0x03] ++ leEncode 2 k := congrArg Transfer.Down.payload heq
    obtain rfl := hb h₃
    set r : Receiver η := { s.receiver with
      announceTxCounter := a
      lastBlastCompleteTxCounter := f.txCounter
      lastActivityMs := e.now } with hr
    have hcall : Receiver.handleFileTransfer (receiverContext H e)
        { s.receiver with announceTxCounter := a, lastBlastCompleteTxCounter := f.txCounter } []
        f.payload = r.handleBlastComplete (receiverContext H e) [] k := by
      rw [hpay, receiverContext, Run.handleFileTransfer_blastComplete, Nat.mod_eq_of_lt hk]
    by_cases hsilent : s.receiver.state ≠ .receiving ∨ s.receiver.currentIncrement < k
    · obtain ⟨now, ok, hsame⟩ := handleBlastComplete_silent (H := H)
        (e := ⟨e.now, e.ackSent⟩) (r := r) hsilent
      rw [hstep (hcall.trans hsame)]
      have hpass : Passes r { r with lastActivityMs := now } :=
        .of_same rfl rfl rfl fun hc => { hc with }
      exact h.passes hpass rfl rfl rfl (fun hc => { hc with }) (by simp)
    · rw [not_or, not_not] at hsilent
      obtain ⟨hrec, hle⟩ := hsilent
      have hbusy : s.receiver.state ≠ .idle := by rw [hrec]; decide
      have hcoll : Collecting r := { (h.along hbusy).collecting hrec with }
      obtain ⟨r', new, ok, hans, hb⟩ :=
        handleBlastComplete_answer H ⟨e.now, e.ackSent⟩ hcoll hrec [] (Nat.not_lt.mp hle)
      rw [hstep (hcall.trans hans)]
      have hserves : Serves r True False _ _ :=
        serves_handleBlastComplete (H := H) (e := ⟨e.now, e.ackSent⟩) trivial r k
      rw [hans] at hserves
      exact h.blast_answered hH (heq ▸ hf) hk hmk hrec rfl hb hserves.answers
  · have hpass := passes_handleFileTransfer H ⟨e.now, e.ackSent⟩
      { s.receiver with announceTxCounter := a, lastBlastCompleteTxCounter := b } f.payload hquiet
      h₃
    have hserves := serves_handleFileTransfer (H := H) (e := ⟨e.now, e.ackSent⟩)
      { s.receiver with announceTxCounter := a, lastBlastCompleteTxCounter := b } f.payload hquiet
    rw [hstep rfl]
    refine h.passes hpass rfl rfl rfl (fun hc => { hc with }) fun ack hack hgaps => ?_
    cases hserves.answers ack hack with
    | gaps bitmap hb => exact h₃ hb
    | abort hr => exact absurd (hgaps.symm.trans hr) (by decide)
    | complete hr => exact absurd (hgaps.symm.trans hr) (by decide)

/-- A frame of the manager keeps the two ends joined, whenever it arrives. -/
theorem deliverDown (h : Joint g s) {H : ActionHandler η} (hH : Accepting H) {e : Transfer.Env}
    {f : Transfer.Down} (hf : f ∈ s.downlink) : Joint g (s.deliverDown H e f) := by
  by_cases htype : f.type = .fileTransfer
  · exact h.deliverControl hH hf htype
  unfold State.deliverDown
  split
  · exact h.passes (passes_handleFileData H ⟨e.now, e.ackSent⟩ _ _) rfl rfl rfl id (by simp)
  · next hfile => exact absurd hfile htype
  · exact h

/-! ### Steps of the manager -/

/-- The manager makes moves. -/
theorem moved (h : Joint g s) (hinc : g.totalIncrements < 2 ^ 16) {m : Manager}
    {frames : List Transfer.Down} {c : Core} (hs : Sending g s.held c s.downlink)
    (hnear : c.state ≠ .idle → s.receiver.state ≠ .idle →
      c.currentIncrement ≤ s.receiver.currentIncrement ∧
        s.receiver.currentIncrement ≤ c.currentIncrement + 1)
    (hm : Moves (c, s.downlink) (m.core, frames)) (hnum : (frames.map (·.txCounter)).Nodup) :
    Joint g { s with manager := m, downlink := frames } where
  sending := hs.moves hinc hm
  along := h.along
  near hb hr := by
    obtain ⟨hbusy, -, -, hcur, -⟩ := hm.kept hb
    have hcur : m.tracker.currentIncrement = c.currentIncrement := hcur
    dsimp only at hcur ⊢
    rw [hcur]
    exact hnear hbusy hr
  acks ack hack hgaps := by
    refine (h.acks ack hack hgaps).mono (Finset.Subset.refl _) hm.frames_subset fun hr => ?_
    exact ⟨hr, le_rfl⟩
  numbered := hnum

/-- A `GAPS` that the manager takes is for its increment.  Its bitmap is empty only if the receiver
has held the increment, and has left it unless it is the last one. -/
theorem gaps_current (h : Joint g s) (hinc : g.totalIncrements < 2 ^ 16) {ack : Bytes}
    (hack : ack ∈ s.uplink) (hr : ackResult ack = ackGaps) (hbusy : s.manager.state ≠ .idle)
    (href : ackRef ack ∈ s.manager.core.blastCompleteTxHistory) :
    (leDecode ((ack.drop 6).take 2) = 0 →
      HeldAll g s.held s.manager.core.currentIncrement ∧
        (s.receiver.state = .idle ∨
          s.manager.core.currentIncrement < s.receiver.currentIncrement ∨
          g.totalIncrements ≤ s.manager.core.currentIncrement + 1)) ∧
      (leDecode ((ack.drop 6).take 2) ≠ 0 →
        ∃ i < g.chunksInIncrement s.manager.core.currentIncrement,
          bitmapGet (((ack.drop 6).drop 2).take (leDecode ((ack.drop 6).take 2))) i = false) := by
  obtain ⟨k, bitmap, hk, hf, ht, hlen, hempty, hgap⟩ := h.acks ack hack hr
  have hcur := h.sending.current hbusy
  have hsame : blast k (ackRef ack) = blast s.manager.core.currentIncrement (ackRef ack) :=
    List.inj_on_of_nodup_map h.numbered hf (h.sending.history _ href) rfl
  obtain rfl := blast_inj hk (by omega) hsame
  have htake : (ack.drop 6).take 2 = leEncode 2 bitmap.length := by
    rw [ht]
    exact List.take_left' (by simp)
  have hdrop : (ack.drop 6).drop 2 = bitmap := by
    rw [ht]
    exact List.drop_left' (by simp)
  have hdec : leDecode ((ack.drop 6).take 2) = bitmap.length := by
    rw [htake, leDecode_leEncode]
    exact Nat.mod_eq_of_lt hlen
  rw [hdec, hdrop, List.take_length]
  refine ⟨fun h₀ => hempty (List.length_eq_zero_iff.mp h₀), fun h₀ => hgap fun hnil => h₀ ?_⟩
  rw [hnil]
  rfl

/-- The manager reacts to an acknowledgement. -/
theorem reacted (h : Joint g s) (hinc : g.totalIncrements < 2 ^ 16) {ack : Bytes}
    (hack : ack ∈ s.uplink) (hbusy : s.manager.state ≠ .idle) {c : Core}
    (hr : Reaction (ackResult ack) (ackRef ack) (ack.drop 6) s.manager.core c) :
    Sending g s.held c s.downlink ∧ (c.state ≠ .idle → s.receiver.state ≠ .idle →
      c.currentIncrement ≤ s.receiver.currentIncrement ∧
        s.receiver.currentIncrement ≤ c.currentIncrement + 1) := by
  have hsame : Sending g s.held s.manager.core s.downlink ∧
      (s.manager.core.state ≠ .idle → s.receiver.state ≠ .idle →
        s.manager.core.currentIncrement ≤ s.receiver.currentIncrement ∧
          s.receiver.currentIncrement ≤ s.manager.core.currentIncrement + 1) := ⟨h.sending, h.near⟩
  have hsend := h.sending
  have hgeo := hsend.geometry hbusy
  cases hr with
  | accept hr hs => exact absurd hs hsend.opened
  | misfit => exact hsame
  | reject => exact hsame
  | abort => exact hsame
  | complete => exact hsame
  | success => exact ⟨hsend.idle "", fun hi => absurd rfl hi⟩
  | exhausted => exact hsame
  | last hr hs href h₀ hlast =>
    obtain ⟨hheld, -⟩ := (h.gaps_current hinc hack hr hbusy href).1 h₀
    have hall : ∀ k < g.totalIncrements, HeldAll g s.held k := by
      intro k hk
      rcases Nat.lt_or_ge k s.manager.core.currentIncrement with hlt | hge
      · exact hsend.left hbusy k hlt
      · rw [hgeo] at hlast
        obtain rfl : k = s.manager.core.currentIncrement := by omega
        exact hheld
    refine ⟨⟨by simp, fun _ => hgeo, fun _ => hsend.current hbusy, hsend.quiet,
      fun f hf ht hp => ?_, hsend.history, fun _ => hsend.left hbusy, fun _ => hall, hsend.ended⟩,
      fun _ => h.near hbusy⟩
    obtain ⟨k, hk, heq, hle⟩ := hsend.blasts f hf ht hp
    exact ⟨k, hk, heq, fun _ => hle hbusy⟩
  | next hr hs href h₀ hmore =>
    obtain ⟨hheld, hpos⟩ := (h.gaps_current hinc hack hr hbusy href).1 h₀
    rw [hgeo] at hmore
    have hwrap : (s.manager.core.currentIncrement + 1) % 2 ^ 16 =
        s.manager.core.currentIncrement + 1 := Nat.mod_eq_of_lt (by omega)
    rw [hwrap]
    refine ⟨⟨by simp, fun _ => hgeo, fun _ => hmore, hsend.quiet, fun f hf ht hp => ?_, by simp,
      fun _ k hk => ?_, by simp, hsend.ended⟩, fun _ hbusy' => ?_⟩
    · obtain ⟨k, hk, heq, hle⟩ := hsend.blasts f hf ht hp
      exact ⟨k, hk, heq, fun _ => (hle hbusy).trans (Nat.le_succ _)⟩
    · rcases Nat.lt_succ_iff_lt_or_eq.mp hk with hlt | rfl
      · exact hsend.left hbusy k hlt
      · exact hheld
    · have hnear := h.near hbusy hbusy'
      have hnear : s.manager.core.currentIncrement ≤ s.receiver.currentIncrement ∧
        s.receiver.currentIncrement ≤ s.manager.core.currentIncrement + 1 := hnear
      dsimp only
      rcases hpos with hidle | hlt | hlast
      · exact absurd hidle hbusy'
      · omega
      · omega
  | full hr hs href h₀ hlen hbits =>
    obtain ⟨i, hi, hbit⟩ := (h.gaps_current hinc hack hr hbusy href).2 h₀
    rw [hgeo] at hbits
    rw [hbits i hi] at hbit
    cases hbit
  | gaps hr hs href h₀ =>
    exact ⟨hsend.turn hbusy (.inl rfl) rfl rfl (by simp), fun _ => h.near hbusy⟩

/-- So does an acknowledgement: the manager goes on only at one that answers a `BLAST_COMPLETE` of
its increment. -/
theorem deliverUp (h : Joint g s) (hinc : g.totalIncrements < 2 ^ 16) {e : Transfer.Env}
    {ack : Bytes} (hack : ack ∈ s.uplink)
    (hnum : ((s.deliverUp e ack).downlink.map (·.txCounter)).Nodup) :
    Joint g (s.deliverUp e ack) := by
  have hmoves := s.manager.onFileAck_moves (e := e) s.downlink s.manager.leafMac (ack.getD 0 0)
    (ackResult ack) (ackRef ack) (ack.drop 6)
  obtain ⟨m, frames, ok, hy⟩ : ∃ m frames ok,
      s.manager.onFileAck (Transfer.managerContext e) s.downlink s.manager.leafMac (ack.getD 0 0)
        (ackResult ack) (ackRef ack) (ack.drop 6) = ((m, frames), ok) := ⟨_, _, _, rfl⟩
  have hup : s.deliverUp e ack = { s with manager := m, downlink := frames } := by
    rw [State.deliverUp, hy]
  rw [hy] at hmoves
  rw [hup] at hnum ⊢
  rcases hmoves with ⟨hcore, hfs⟩ | ⟨hbusy, c, hr, hm⟩
  · refine h.moved hinc h.sending h.near ?_ hnum
    obtain rfl : frames = s.downlink := hfs
    rw [show m.core = s.manager.core from hcore]
    exact .refl
  · obtain ⟨hsend, hnear⟩ := h.reacted hinc hack hbusy hr
    exact h.moved hinc hsend hnear hm hnum

/-- Every step keeps the invariant. -/
theorem step (h : Joint g s) (hinc : g.totalIncrements < 2 ^ 16) {H : ActionHandler η}
    (hH : Accepting H) {ev : Event}
    (hnum : ((step H s ev).downlink.map (·.txCounter)).Nodup) : Joint g (step H s ev) := by
  cases ev with
  | source sequence data =>
    refine h.moved (m := (s.manager.onSourceChunk sequence data).1) hinc h.sending h.near ?_ hnum
    rw [Manager.core_onSourceChunk]
    exact .refl
  | sourceAbort e reason =>
    exact h.moved hinc h.sending h.near (s.manager.onSourceAbort_moves s.downlink reason) hnum
  | managerLoop e => exact h.moved hinc h.sending h.near (s.manager.loop_moves s.downlink) hnum
  | receiverLoop e =>
    refine h.passes (passes_loop H ⟨e.now, e.ackSent⟩ _) rfl rfl rfl id fun ack hack hgaps => ?_
    obtain ⟨new, hnew, hbitmaps⟩ := Run.loop_bitmaps H ⟨e.now, e.ackSent⟩ s.receiver []
    rw [List.nil_append] at hnew
    have hnone := List.filterMap_eq_nil_iff.mp hbitmaps ack (hnew ▸ hack)
    rw [gapsBitmap?, if_pos (by simpa [ackResult] using hgaps)] at hnone
    cases hnone
  | receiverAbort e reason notifySender =>
    have hpass : Passes s.receiver
        (s.receiver.abort (receiverContext H e) [] reason notifySender).1 := .inl rfl
    refine h.passes hpass rfl rfl rfl id fun ack hack hgaps => ?_
    have hserves : Serves s.receiver False False
        (s.receiver.abort (receiverContext H e) [] reason notifySender).1
        (s.receiver.abort (receiverContext H e) [] reason notifySender).2 :=
      serves_abort (by simp) s.receiver reason notifySender
    cases hserves.answers ack hack with
    | gaps bitmap hb => exact hb
    | abort hr => exact absurd (hgaps.symm.trans hr) (by decide)
    | complete hr => exact absurd (hgaps.symm.trans hr) (by decide)
  | down e i =>
    change Joint g ((s.downlink[i]?).elim s fun f => s.deliverDown H e f)
    cases hi : s.downlink[i]? with
    | none => exact h
    | some f => exact h.deliverDown hH (List.mem_of_getElem? hi)
  | up e i =>
    change Joint g ((s.uplink[i]?).elim s fun ack => s.deliverUp e ack)
    change (((s.uplink[i]?).elim s fun ack => s.deliverUp e ack).downlink.map (·.txCounter)).Nodup
      at hnum
    cases hi : s.uplink[i]? with
    | none => exact h
    | some ack =>
      rw [hi] at hnum
      exact h.deliverUp hinc (List.mem_of_getElem? hi) hnum

end Joint

/-! ## The opening leads into the invariant -/

namespace Opening

variable {o : Opening η} {H : ActionHandler η}

/-- The file that is announced is the one that was asked for. -/
theorem announcing_core (h : o.announcing.state ≠ .idle) :
    o.announcing.core.state = .announcing ∧ o.announcing.core.offer = o.offer ∧
      o.offer.fileSize < 2 ^ 32 := by
  have hmoves := Manager.startTransfer_moves ({ config := o.config } : Manager) (e := o.env) []
    o.leafMac o.offer.fileSize o.offer.md5 o.offer.action o.maxFramePayload o.offer.fileId
  rcases hmoves with ⟨message, hcore, -⟩ | ⟨-, hsize, hmoves⟩
  · exact absurd (congrArg Core.state hcore) h
  · obtain ⟨-, hoffer, -, -, hann⟩ := hmoves.kept h
    exact ⟨hann.mp rfl, hoffer, by omega⟩

/-- A manager that is blasting was announcing. -/
theorem announcing_busy (h : (o.opened H).manager.state = .blasting) :
    o.announcing.state ≠ .idle := by
  intro hidle
  have hmoves := o.announcing.onFileAck_moves (e := o.env) [] o.announcing.leafMac
    (((o.announced H).2.getD 0 []).getD 0 0) (ackResult ((o.announced H).2.getD 0 []))
    (ackRef ((o.announced H).2.getD 0 [])) (((o.announced H).2.getD 0 []).drop 6)
  rcases hmoves with ⟨hcore, -⟩ | ⟨hbusy, -⟩
  · have hstate : (o.opened H).manager.state = o.announcing.state := congrArg Core.state hcore
    rw [hstate, hidle] at h
    cases h
  · exact hbusy hidle

variable (o H) in
/-- The receiver handles the `ANNOUNCE` that was sent. -/
theorem announced_eq : ∃ tx b, o.announced H =
    let r : Receiver η := { o.receiver with
      announceTxCounter := tx, lastBlastCompleteTxCounter := b, lastActivityMs := o.env.now }
    ((r.handleAnnounce (context H ⟨o.env.now, o.env.ackSent⟩) [] o.announce).1,
      (r.handleAnnounce (context H ⟨o.env.now, o.env.ackSent⟩) [] o.announce).2.1) := by
  obtain ⟨tx, b, hnote, -, -⟩ :=
    noteTxCounter_eq o.receiver o.announcing.announceTxCounter o.announcing.announcePayload
  refine ⟨tx, b, ?_⟩
  have hlen : o.announcing.core.announcePayload.tail.length = 35 := by
    simp [Core.announcePayload]
  have hann := handleFileTransfer_announce H ⟨o.env.now, o.env.ackSent⟩
    { o.receiver with announceTxCounter := tx, lastBlastCompleteTxCounter := b } [] hlen
  rw [announced]
  dsimp only
  rw [hnote]
  exact congrArg (fun y => (y.1, y.2.1)) hann

/-- The receiver that has taken up the transfer is at the first increment of the file. -/
theorem announced_receiver (hidle : o.receiver.state = .idle)
    (hoff : o.receiver.inCompletePhase = false) (hbusy : o.announcing.state ≠ .idle)
    (hrec : (o.announced H).1.state = .receiving) :
    Collecting (o.announced H).1 ∧ (o.announced H).1.currentIncrement = 0 ∧
      (o.announced H).1.offer = o.offer ∧ (o.announced H).1.chunkPayloadSize < 2 ^ 16 ∧
      ((o.announced H).2.getD 0 []).drop 6 = leEncode 2 (o.announced H).1.chunkPayloadSize ++
        [UInt8.ofNat (o.announced H).1.bufferSizeKb, (o.announced H).1.action] := by
  obtain ⟨-, hoffer, hsize⟩ := announcing_core hbusy
  obtain ⟨tx, b, hcall⟩ := announced_eq o H
  have hparse : o.announce.offer = o.offer :=
    hoffer ▸ parse_announcePayload (c := o.announcing.core) (hoffer ▸ hsize)
  set r : Receiver η := { o.receiver with
    announceTxCounter := tx, lastBlastCompleteTxCounter := b, lastActivityMs := o.env.now }
  rw [hcall] at hrec ⊢
  generalize o.announce = a at *
  have hturn := turn_handleAnnounce (H := H) (e := ⟨o.env.now, o.env.ackSent⟩) r [] a
  obtain ⟨ack, hacks, hans⟩ :=
    handleAnnounce_answer (H := H) (e := ⟨o.env.now, o.env.ackSent⟩) r a
  rw [hparse] at hans
  dsimp only at hrec ⊢
  generalize r.handleAnnounce (context H ⟨o.env.now, o.env.ackSent⟩) [] a = y at *
  have hne : r.state ≠ .receiving := by
    rw [show r.state = .idle from hidle]
    decide
  cases hturn with
  | same hstate => exact absurd (hstate.symm.trans hrec) hne
  | away hstate => exact absurd hrec hstate
  | stored hstate => exact absurd hstate hne
  | asked hstate => exact absurd hstate hne
  | begun _ _ hzero hc =>
    have hc := hc hoff
    cases hans with
    | reject _ hstate => exact absurd (hstate.symm.trans hrec) hne
    | again _ _ hopen => exact absurd hidle hopen.1
    | begun hr href _ ho ht =>
      obtain ⟨hchunk, ht⟩ := ht hrec
      refine ⟨hc, hzero, ho.resolve_left ?_, hchunk, ?_⟩
      · rw [hrec]
        decide
      · rw [hacks]
        exact ht

/-- Both ends begin with the same geometry. -/
theorem negotiated_eq (ha : o.Accepted H) :
    o.announcing.core.negotiated (((o.announced H).2.getD 0 []).drop 6) = o.geometry H := by
  have hbusy := announcing_busy ha.blasting
  obtain ⟨hc, -, hoffer, hchunk, ht⟩ := announced_receiver ha.idle ha.off hbusy ha.receiving
  obtain ⟨-, hcore, -⟩ := announcing_core hbusy
  have hkb : (UInt8.ofNat (o.announced H).1.bufferSizeKb).toNat = (o.announced H).1.bufferSizeKb :=
    UInt8.toNat_ofNat_of_lt ha.buffer
  have hget : (leEncode 2 (o.announced H).1.chunkPayloadSize ++
      [UInt8.ofNat (o.announced H).1.bufferSizeKb, (o.announced H).1.action]).getD 2 0 =
        UInt8.ofNat (o.announced H).1.bufferSizeKb := by
    rw [List.getD_append_right _ _ _ _ (by simp)]
    simp
  rw [ht, Core.negotiated, hcore, ← hoffer, List.take_left' (length_leEncode _ _),
    leDecode_leEncode, Nat.mod_eq_of_lt (by simpa using hchunk), hget, hkb]
  exact hc.geometry.symm

/-- The answer to the announce does not reach the receiver. -/
theorem opened_receiver : (o.opened H).receiver = (o.announced H).1 := rfl

theorem opened_held : (o.opened H).held = marked (o.opened H).receiver := rfl

theorem opened_uplink : (o.opened H).uplink = [] := rfl

/-- The transfer begins in the invariant. -/
theorem joint (ha : o.Accepted H) :
    Joint (o.geometry H) (o.opened H) ∧ (o.geometry H).totalIncrements < 2 ^ 16 := by
  have hbusy := announcing_busy ha.blasting
  obtain ⟨hc, hzero, -⟩ :=
    announced_receiver ha.idle ha.off hbusy ((congrArg _ opened_receiver).symm.trans ha.receiving)
  rw [← opened_receiver] at hc hzero
  obtain ⟨hcore, hframes⟩ := o.announcing.onFileAck_blasting (e := o.env) [] o.announcing.leafMac
    _ _ _ _ (announcing_core hbusy).1 ha.blasting
  have hcore : (o.opened H).manager.core = { o.announcing.core with
      state := .blasting
      geometry := o.announcing.core.negotiated (((o.announced H).2.getD 0 []).drop 6)
      currentIncrement := 0
      blastCompleteTxHistory := [] } := hcore
  have hframes : (o.opened H).downlink = [] := hframes
  rw [negotiated_eq ha] at hcore
  have huplink := opened_uplink (o := o) (H := H)
  have hheld := opened_held (o := o) (H := H)
  rw [geometry] at hcore ⊢
  generalize o.opened H = s at hc hzero hcore hframes huplink hheld ⊢
  have hcur : s.manager.tracker.currentIncrement = 0 := congrArg Core.currentIncrement hcore
  have hmore : s.receiver.currentIncrement < s.receiver.geometry.totalIncrements := hc.more
  refine ⟨⟨?_, fun _ => ?_, fun _ _ => ?_, ?_, ?_⟩, hc.increments_lt⟩
  · rw [hcore, hframes]
    exact {
      opened := by simp
      geometry := fun _ => rfl
      current := fun _ => hzero ▸ hmore
      quiet := by simp
      blasts := by simp
      history := by simp
      left := by simp
      ending := by simp
      ended := by simp }
  · have hempty : s.held = ∅ ∪ marked s.receiver := hheld.trans (Finset.empty_union _).symm
    rw [hempty]
    exact .of_marked rfl hmore (by simp [hzero]) fun _ => hc
  · omega
  · simp [huplink]
  · simp [hframes]

/-- The invariant holds throughout. -/
theorem joint_of_reachable (hH : Accepting H) (ha : o.Accepted H) {s : State η}
    (h : o.Reachable H s) : Joint (o.geometry H) s := by
  obtain ⟨hjoint, hinc⟩ := joint ha
  induction h with
  | start hs => exact hs ▸ hjoint
  | next _ hnum ih => exact ih.step hinc hH hnum

end Opening

/-! ## Lockstep -/

/-- A `GAPS` for a counter that the manager does not remember changes nothing. -/
theorem onFileAck_forgotten (m : Manager) (e : Transfer.Env) (fs : List Transfer.Down) (mac : Mac)
    (ackType : UInt8) {ref : UInt32} (trailing : Bytes)
    (h : m.state ≠ .idle → ref ∉ m.tracker.blastCompleteTxHistory) :
    ∃ m' ok, m.onFileAck (Transfer.managerContext e) fs mac ackType ackGaps ref trailing =
      ((m', fs), ok) ∧ (m' = m ∨ m' = m.noteActivity (Transfer.managerContext e)) := by
  unfold Manager.onFileAck
  split
  · exact ⟨m, false, rfl, .inl rfl⟩
  next hbusy =>
  have href : ref ∉ (m.noteActivity (Transfer.managerContext e)).tracker.blastCompleteTxHistory :=
    h fun hidle => hbusy (by simp [Manager.isBusy, hidle])
  unfold Manager.dispatchFileAck
  rw [if_neg (by decide), if_neg (by decide), if_pos (by decide), if_pos href]
  split
  · exact ⟨_, true, rfl, .inr rfl⟩
  · exact ⟨_, false, rfl, .inr rfl⟩

/-- The manager remembers no counter of a `BLAST_COMPLETE` of an earlier increment. -/
theorem Joint.forgotten {g : Geometry} {s : State η} (h : Joint g s)
    (hinc : g.totalIncrements < 2 ^ 16) {k : Nat} {tx : UInt32} (hf : blast k tx ∈ s.downlink)
    (hk : k < s.manager.tracker.currentIncrement) (hbusy : s.manager.state ≠ .idle) :
    tx ∉ s.manager.tracker.blastCompleteTxHistory := by
  intro htx
  have hcur : s.manager.tracker.currentIncrement < g.totalIncrements := h.sending.current hbusy
  have hsame : blast k tx = blast s.manager.tracker.currentIncrement tx :=
    List.inj_on_of_nodup_map h.numbered hf (h.sending.history tx htx) rfl
  have := blast_inj (by omega) (by omega) hsame
  omega

/-- The two ends of a transfer stay in lockstep, for every accepting handler and every opening, and
whatever the radio loses, repeats, delays or reorders: the receiver is at the increment of the
manager or one ahead, the manager leaves only increments that the receiver has held completely,
sends `END` only after all of them were, and is not moved by a `GAPS` for an increment that it has
left. -/
theorem in_lockstep {H : ActionHandler η} (hH : Accepting H) {o : Opening η} (ha : o.Accepted H)
    {s : State η} (h : o.Reachable H s) : InLockstep H (o.geometry H) s := by
  have hjoint := o.joint_of_reachable hH ha h
  obtain ⟨-, hinc⟩ := o.joint ha
  refine ⟨fun hm hr => (hjoint.near hm hr).1, fun hm hr => (hjoint.near hm hr).2,
    hjoint.sending.left, hjoint.sending.ended, fun e i ack k hi hr hf hk => ?_⟩
  have hstep : step H s (.up e i) = s.deliverUp e ack := by
    change (s.uplink[i]?).elim s (fun ack => s.deliverUp e ack) = _
    rw [hi]
    rfl
  obtain ⟨m, ok, hack, hm⟩ := onFileAck_forgotten s.manager e s.downlink s.manager.leafMac
    (ack.getD 0 0) (ack.drop 6) fun hbusy => hjoint.forgotten hinc hf hk hbusy
  rw [hstep, State.deliverUp, hr, hack]
  exact ⟨rfl, hm⟩

/-! ### A transfer of two increments -/

/-- A handler with a buffer of one kilobyte. -/
def smallSink : ActionHandler Unit :=
  { sink with onAnnounce := fun h _ _ chunkSize _ _ _ => (h, ⟨true, 0, chunkSize⟩, 1) }

/-- An environment at time `now` in which every send succeeds, with counters from 2 on. -/
def plainEnv (now : UInt32) : Transfer.Env where
  now := now
  ackSent _ := true
  frameSent n := (.ok, 2 + UInt32.ofNat n)
  targetReachable := true

/-- Five chunks, four of them in the first increment. -/
def smallOpening : Opening Unit where
  receiver := { handlers := fun a => if a == 2 then some () else none }
  config := {}
  leafMac := Octets.zero 6
  offer := ⟨1100, Octets.zero 16, 2, Octets.zero 12⟩
  maxFramePayload := 250
  env := plainEnv 1000

/-- The `BLAST_COMPLETE` of the first increment arrives twice, and its last answer first. -/
def smallRun : List Event :=
  [.source 0 (List.replicate 221 0), .source 1 (List.replicate 221 0),
    .source 2 (List.replicate 221 0), .source 3 (List.replicate 221 0),
    .managerLoop (plainEnv 1010), .managerLoop (plainEnv 1020), .managerLoop (plainEnv 1030),
    .managerLoop (plainEnv 1040), .managerLoop (plainEnv 1050), .down (plainEnv 1060) 3,
    .down (plainEnv 1060) 1, .down (plainEnv 1060) 0, .down (plainEnv 1060) 2,
    .down (plainEnv 1060) 4, .down (plainEnv 1060) 4, .up (plainEnv 1070) 2]

def smallEnd : State Unit :=
  Transition.runFrom (step smallSink) (smallOpening.opened smallSink) smallRun

theorem smallOpening_accepted : smallOpening.Accepted smallSink where
  idle := rfl
  off := rfl
  receiving := by decide +kernel
  blasting := by decide +kernel
  buffer := by decide +kernel

/-- The manager goes on to the second increment, and the receiver has all of the first. -/
theorem in_lockstep_smallEnd : smallEnd.manager.tracker.currentIncrement = 1 ∧
    HeldAll (smallOpening.geometry smallSink) smallEnd.held 0 := by
  have hstart : smallOpening.Reachable smallSink (smallOpening.opened smallSink) := .start rfl
  have hreach : smallOpening.Reachable smallSink smallEnd :=
    Transition.Reachable.runFrom hstart (by decide +kernel)
  have hcur : smallEnd.manager.tracker.currentIncrement = 1 := by decide +kernel
  have hbusy : smallEnd.manager.state ≠ .idle := by decide +kernel
  have hlock := in_lockstep (fun _ _ _ => rfl) smallOpening_accepted hreach
  generalize smallEnd = s at *
  exact ⟨hcur, hlock.left hbusy 0 (by omega)⟩

end Lockstep

end EspTree
