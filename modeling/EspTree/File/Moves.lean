import EspTree.File.Transfer

/-!
# The transfer manager: what a call can do

Every call of the manager is a sequence of moves from a short list, preceded by at most one
`Reaction` to an acknowledgement, so an invariant of a transfer is proved once per move and not
once per function.  `Core` lists the fields that the frames of the two ends depend on; timers,
back-off and the bookkeeping of requested chunks stay outside of it.

The moves are those of a manager whose frames go to a list, as in `Transfer.managerContext`.
-/

namespace EspTree

open Wire Transfer

/-- What a transfer is about. -/
structure Offer where
  fileSize : Nat
  md5 : Octets 16
  action : UInt8
  fileId : Octets 12
  deriving DecidableEq

namespace OtaManager

/-- The fields of the manager that frames and acknowledgements depend on. -/
structure Core where
  state : State
  offer : Offer
  requestedChunkSize : Nat
  announceTxCounter : UInt32
  geometry : Geometry
  currentIncrement : Nat
  blastCompleteTxHistory : List UInt32
  lastError : String

namespace Core

/-- The manager after `reset_`. -/
def idle (message : String) : Core where
  state := .idle
  offer := ⟨0, Octets.zero 16, 0, Octets.zero 12⟩
  requestedChunkSize := 0
  announceTxCounter := 0
  geometry := .none
  currentIncrement := 0
  blastCompleteTxHistory := []
  lastError := message

/-- The manager when `start_transfer` calls `send_announce_`. -/
def started (offer : Offer) (requestedChunkSize : Nat) : Core :=
  { idle "" with state := .announcing, offer, requestedChunkSize }

/-- The packed `espnow_file_announce_t`. -/
def announcePayload (c : Core) : Bytes :=
  [0x00] ++ leEncode 4 c.offer.fileSize ++ c.offer.md5.bytes ++ leEncode 2 c.requestedChunkSize ++
    [c.offer.action] ++ c.offer.fileId.bytes

/-- The geometry that an `ACCEPT` leads to. -/
def negotiated (c : Core) (trailing : Bytes) : Geometry :=
  Geometry.ofTransfer c.offer.fileSize (leDecode (trailing.take 2)) (trailing.getD 2 0).toNat

/-- The tests of `handle_accept_`. -/
def Acceptable (c : Core) (trailing : Bytes) : Prop :=
  4 ≤ trailing.length ∧ trailing.getD 3 0 = c.offer.action ∧ leDecode (trailing.take 2) ≠ 0 ∧
    leDecode (trailing.take 2) ≤ c.requestedChunkSize ∧ (trailing.getD 2 0).toNat ≠ 0 ∧
    (c.negotiated trailing).totalChunks ≠ 0

instance (c : Core) (trailing : Bytes) : Decidable (c.Acceptable trailing) :=
  inferInstanceAs (Decidable (_ ∧ _ ∧ _ ∧ _ ∧ _ ∧ _))

end Core

/-- The core of a manager. -/
def Manager.core (m : Manager) : Core where
  state := m.state
  offer := ⟨m.fileSize, m.md5, m.action, m.fileId⟩
  requestedChunkSize := m.requestedChunkSize
  announceTxCounter := m.announceTxCounter
  geometry := m.tracker.geometry
  currentIncrement := m.tracker.currentIncrement
  blastCompleteTxHistory := m.tracker.blastCompleteTxHistory
  lastError := m.lastError

/-! ## Moves -/

/-- One thing that a manager does on its own, with the frames that it has sent. -/
inductive Move : Core × List Down → Core × List Down → Prop
  | data {c : Core} {fs : List Down} (n : UInt32) (payload : Bytes) (hs : c.state = .blasting) :
      Move (c, fs) (c, fs ++ [⟨n, .fileData, payload⟩])
  | announce {c : Core} {fs : List Down} (n a : UInt32) (hs : c.state = .announcing)
      (ha : a = n ∨ a = c.announceTxCounter) :
      Move (c, fs) ({ c with announceTxCounter := a },
        fs ++ [⟨n, .fileTransfer, c.announcePayload⟩])
  | blast {c : Core} {fs : List Down} (n : UInt32) (history : List UInt32)
      (hs : c.state = .blasting ∨ c.state = .waitingGaps)
      (hh : ∀ tx ∈ history, tx ∈ c.blastCompleteTxHistory ∨ tx = n) :
      Move (c, fs) ({ c with blastCompleteTxHistory := history },
        fs ++ [⟨n, .fileTransfer, [0x03] ++ leEncode 2 c.currentIncrement⟩])
  | wait {c : Core} {fs : List Down} (hs : c.state = .blasting) :
      Move (c, fs) ({ c with state := .waitingGaps }, fs)
  | finish {c : Core} {fs : List Down} (n : UInt32) (hs : c.state = .ending) :
      Move (c, fs) (c, fs ++ [⟨n, .fileTransfer, [0x01]⟩])
  | abort {c : Core} {fs : List Down} (n : UInt32) (reason : UInt8) (hs : c.state ≠ .idle) :
      Move (c, fs) (c, fs ++ [⟨n, .fileTransfer, [0x02, reason]⟩])
  | fail {c : Core} {fs : List Down} (message : String) (hs : c.state ≠ .idle)
      (hm : message ≠ "") : Move (c, fs) (Core.idle message, fs)

/-- A sequence of moves. -/
def Moves : Core × List Down → Core × List Down → Prop := Relation.ReflTransGen Move

/-- The invariant rule of a sequence of moves. -/
theorem Moves.invariant {I : Core → List Down → Prop} {c c' : Core} {fs fs' : List Down}
    (h : Moves (c, fs) (c', fs'))
    (hstep : ∀ {c c' fs fs'}, Move (c, fs) (c', fs') → I c fs → I c' fs') (h₀ : I c fs) :
    I c' fs' :=
  Transition.steps_invariant (I := fun p => I p.1 p.2) h (fun _ _ hi hm _ => hstep hm hi) h₀

/-- Frames are only added. -/
theorem Moves.frames_subset {c c' : Core} {fs fs' : List Down} (h : Moves (c, fs) (c', fs')) :
    fs ⊆ fs' := by
  refine h.invariant (I := fun _ fs' => fs ⊆ fs') ?_ (List.Subset.refl fs)
  intro c₁ c₂ fs₁ fs₂ hmove hi
  cases hmove with
  | data | announce | blast | finish | abort => exact fun f hf => List.mem_append_left _ (hi hf)
  | wait | fail => exact hi

/-- A manager that stays busy keeps its file, its geometry and its increment. -/
theorem Moves.kept {c c' : Core} {fs fs' : List Down} (h : Moves (c, fs) (c', fs'))
    (hbusy : c'.state ≠ .idle) : c.state ≠ .idle ∧ c'.offer = c.offer ∧ c'.geometry = c.geometry ∧
      c'.currentIncrement = c.currentIncrement ∧
      (c.state = .announcing ↔ c'.state = .announcing) := by
  refine h.invariant (I := fun c' _ => c'.state ≠ .idle → c.state ≠ .idle ∧ c'.offer = c.offer ∧
    c'.geometry = c.geometry ∧ c'.currentIncrement = c.currentIncrement ∧
    (c.state = .announcing ↔ c'.state = .announcing)) ?_ (fun h => ⟨h, rfl, rfl, rfl, .rfl⟩) hbusy
  intro c₁ c₂ fs₁ fs₂ hmove hi
  cases hmove with
  | data => exact hi
  | announce => exact hi
  | blast => exact hi
  | wait hs =>
    intro _
    obtain ⟨hb, ho, hg, hc, hann⟩ := hi (by rw [hs]; decide)
    rw [hs] at hann
    exact ⟨hb, ho, hg, hc, by simpa using hann⟩
  | finish => exact hi
  | abort => exact hi
  | fail message hs hm => exact fun h => absurd rfl h

/-! ## Reactions -/

/-- What an acknowledgement makes of a manager that is busy with the leaf that sent it.  An
acknowledgement that no case fits is ignored. -/
inductive Reaction (result : UInt8) (ref : UInt32) (trailing : Bytes) (c : Core) : Core → Prop
  | accept (hr : result = 0x00) (hs : c.state = .announcing) (href : ref = c.announceTxCounter)
      (h : c.Acceptable trailing) :
      Reaction result ref trailing c
        { c with
          state := .blasting
          geometry := c.negotiated trailing
          currentIncrement := 0
          blastCompleteTxHistory := [] }
  | misfit (hr : result = 0x00) (hs : c.state = .announcing) (href : ref = c.announceTxCounter)
      (h : ¬ c.Acceptable trailing) : Reaction result ref trailing c c
  | reject (hr : result = 0x01) : Reaction result ref trailing c c
  | abort (hr : result = 0x04) : Reaction result ref trailing c c
  | complete (hr : result = 0x03) : Reaction result ref trailing c c
  | success (hr : result = 0x03) : Reaction result ref trailing c (Core.idle "")
  | exhausted (hr : result = 0x05) (hs : c.state = .waitingGaps)
      (href : ref ∈ c.blastCompleteTxHistory) : Reaction result ref trailing c c
  | last (hr : result = 0x05) (hs : c.state = .waitingGaps)
      (href : ref ∈ c.blastCompleteTxHistory) (h₀ : leDecode (trailing.take 2) = 0)
      (hlast : c.geometry.totalIncrements ≤ c.currentIncrement + 1) :
      Reaction result ref trailing c { c with state := .ending }
  | next (hr : result = 0x05) (hs : c.state = .waitingGaps)
      (href : ref ∈ c.blastCompleteTxHistory) (h₀ : leDecode (trailing.take 2) = 0)
      (hmore : c.currentIncrement + 1 < c.geometry.totalIncrements) :
      Reaction result ref trailing c
        { c with
          state := .blasting
          currentIncrement := (c.currentIncrement + 1) % 2 ^ 16
          blastCompleteTxHistory := [] }
  /-- A bitmap without gaps advances the increment too, whichever it is, and the history stays. -/
  | full (hr : result = 0x05) (hs : c.state = .waitingGaps)
      (href : ref ∈ c.blastCompleteTxHistory) (h₀ : leDecode (trailing.take 2) ≠ 0)
      (hlen : 2 + leDecode (trailing.take 2) ≤ trailing.length)
      (hbits : ∀ i < c.geometry.chunksInIncrement c.currentIncrement,
        bitmapGet ((trailing.drop 2).take (leDecode (trailing.take 2))) i = true) :
      Reaction result ref trailing c
        { c with
          state := .blasting
          currentIncrement := (c.currentIncrement + 1) % 2 ^ 16 }
  | gaps (hr : result = 0x05) (hs : c.state = .waitingGaps)
      (href : ref ∈ c.blastCompleteTxHistory) (h₀ : leDecode (trailing.take 2) ≠ 0) :
      Reaction result ref trailing c
        { c with state := .blasting, blastCompleteTxHistory := [] }

/-! ## The functions of the manager -/

namespace Manager

section Core

variable {π : Type} (x : Context π) (m : Manager)

@[simp] theorem core_markNoMemBackoff : (m.markNoMemBackoff x).core = m.core := by
  simp only [markNoMemBackoff, core]

@[simp] theorem core_decayNoMemBackoff : m.decayNoMemBackoff.core = m.core := by
  unfold decayNoMemBackoff
  split <;> rfl

@[simp] theorem core_noteActivity : (m.noteActivity x).core = m.core := rfl

@[simp] theorem core_popChunk (sequence : Nat) (rest : List QueuedChunk) :
    (m.popChunk sequence rest).core = m.core := rfl

theorem core_onSourceChunk (sequence : Nat) (data : Bytes) :
    (m.onSourceChunk sequence data).1.core = m.core := by
  unfold onSourceChunk
  dsimp only
  split_ifs <;> rfl

/-- Asking the source for chunks leaves the core alone. -/
theorem core_pumpBlasting : (m.pumpBlasting x).core = m.core := by
  unfold pumpBlasting
  split_ifs <;> rfl

/-- A transfer that fails leaves an idle manager with its message. -/
theorem core_failTransfer (p : π) (reason : UInt8) (message : String) (notifyRemote : Bool) :
    (m.failTransfer x p reason message notifyRemote).1.core = Core.idle message := by
  unfold failTransfer sendAbort
  dsimp only
  split
  · split <;> rfl
  · rfl

end Core

section Functions

variable {e : Env} (m : Manager) (fs : List Down)

/-- A call may end by failing the transfer. -/
theorem Moves.failTransfer {y : Core × List Down} {m : Manager} {fs : List Down}
    (h : Moves y (m.core, fs)) (reason : UInt8) (message : String) (notifyRemote : Bool)
    (hs : m.state ≠ .idle) (hm : message ≠ "") :
    Moves y ((m.failTransfer (managerContext e) fs reason message notifyRemote).1.core,
      (m.failTransfer (managerContext e) fs reason message notifyRemote).2) := by
  rw [core_failTransfer]
  rcases m.failTransfer_snd (managerContext e) fs reason message notifyRemote with heq | heq
  · rw [heq]
    exact .tail h (.fail message hs hm)
  · rw [heq]
    exact .tail (.tail h (.abort (e.frameSent fs.length).2 reason hs)) (.fail message hs hm)

/-- Failing is one move, and it tells the receiver or not. -/
theorem failTransfer_moves (reason : UInt8) (message : String) (notifyRemote : Bool)
    (hs : m.state ≠ .idle) (hm : message ≠ "") :
    Moves (m.core, fs) ((m.failTransfer (managerContext e) fs reason message notifyRemote).1.core,
      (m.failTransfer (managerContext e) fs reason message notifyRemote).2) :=
  Moves.failTransfer .refl reason message notifyRemote hs hm

theorem sendAnnounce_moves :
    Moves (m.core, fs) ((m.sendAnnounce (managerContext e) fs).1.core,
      (m.sendAnnounce (managerContext e) fs).2.1) := by
  unfold sendAnnounce
  split
  · exact .refl
  next hs =>
  have hann : m.core.state = .announcing := not_not.mp hs
  have hbusy : m.state ≠ .idle := by rw [not_not.mp hs]; decide
  split
  · exact m.failTransfer_moves fs _ _ _ hbusy (by decide)
  have hsent : Move (m.core, fs) (m.core, fs ++ [⟨(e.frameSent fs.length).2, .fileTransfer,
      m.core.announcePayload⟩]) := .announce _ _ hann (.inr rfl)
  dsimp only
  split
  · rw [core_markNoMemBackoff]
    exact .single hsent
  · exact .single (.announce _ _ hann (.inl rfl))
  · exact Moves.failTransfer (e := e) (m := m.clearNoMemBackoff) (.single hsent) 0x02
      "target unreachable" false hbusy (by decide)
  · exact Moves.failTransfer (e := e) (m := m.clearNoMemBackoff) (.single hsent) 0x03
      "failed to send announce" false hbusy (by decide)

theorem sendBlastComplete_moves (hs : m.state = .blasting ∨ m.state = .waitingGaps) :
    Moves (m.core, fs) ((m.sendBlastComplete (managerContext e) fs).1.core,
      (m.sendBlastComplete (managerContext e) fs).2.1) := by
  have hbusy : m.state ≠ .idle := by rcases hs with hs | hs <;> rw [hs] <;> decide
  have hsent : Move (m.core, fs) (m.core, fs ++ [⟨(e.frameSent fs.length).2, .fileTransfer,
      [0x03] ++ leEncode 2 m.core.currentIncrement⟩]) :=
    .blast _ m.core.blastCompleteTxHistory hs fun _ => .inl
  unfold sendBlastComplete
  dsimp only
  split
  · rw [core_markNoMemBackoff]
    exact .single hsent
  · refine .single (.blast _ _ hs fun tx htx => ?_)
    have hmem : tx ∈ m.tracker.blastCompleteTxHistory ++ [(e.frameSent fs.length).2] := by
      split at htx
      · exact List.mem_of_mem_tail htx
      · exact htx
    rcases List.mem_append.mp hmem with hmem | hmem
    · exact .inl hmem
    · exact .inr (List.mem_singleton.mp hmem)
  · exact Moves.failTransfer (e := e) (m := m.clearNoMemBackoff) (.single hsent) 0x02
      "target unreachable during BLAST_COMPLETE" false hbusy (by decide)
  · exact .single hsent

theorem sendEnd_moves (hs : m.state = .ending) :
    Moves (m.core, fs) ((m.sendEnd (managerContext e) fs).1.core,
      (m.sendEnd (managerContext e) fs).2) := by
  have hbusy : m.state ≠ .idle := by rw [hs]; decide
  have hsent : Move (m.core, fs) (m.core, fs ++ [⟨(e.frameSent fs.length).2, .fileTransfer,
      [0x01]⟩]) := .finish _ hs
  unfold sendEnd
  rw [if_neg (by simp [hs])]
  split
  · exact m.failTransfer_moves fs _ _ _ hbusy (by decide)
  dsimp only
  split
  · refine Moves.failTransfer (m := m.markNoMemBackoff (managerContext e)) ?_ _ _ _
      (by simpa using hbusy) (by decide)
    rw [core_markNoMemBackoff]
    exact .single hsent
  · have hcore : ({ m.clearNoMemBackoff with
          state := .ending
          lastControlSendMs := (managerContext e).now
          lastActivityMs := (managerContext e).now
          controlAttemptCount := m.clearNoMemBackoff.controlAttemptCount + 1 } : Manager).core =
        m.core := by
      simp only [core, ← hs]
      rfl
    rw [hcore]
    exact .single hsent
  · exact Moves.failTransfer (e := e) (m := m.clearNoMemBackoff) (.single hsent) 0x02
      "target unreachable" false hbusy (by decide)
  · exact Moves.failTransfer (e := e) (m := m.clearNoMemBackoff) (.single hsent) 0x03
      "failed to send end" true hbusy (by decide)

/-- A chunk goes out, or the send fails and the manager backs off. -/
theorem sendChunk_moves (q : QueuedChunk) (hs : m.state = .blasting) :
    Moves (m.core, fs) ((m.sendChunk (managerContext e) fs q).1.core,
      (m.sendChunk (managerContext e) fs q).2.1) := by
  have hbusy : m.state ≠ .idle := by rw [hs]; decide
  have hsent : Move (m.core, fs) (m.core, fs ++ [⟨(e.frameSent fs.length).2, .fileData,
      chunkPayload q.sequence q.data⟩]) := .data _ _ hs
  unfold sendChunk
  dsimp only
  split
  · exact m.failTransfer_moves fs _ _ _ hbusy (by decide)
  split
  · rw [core_markNoMemBackoff]
    exact .single hsent
  · have hcore : ({ m.decayNoMemBackoff with
          lastChunkSendMs := (managerContext e).now
          lastActivityMs := (managerContext e).now
          tracker := if m.decayNoMemBackoff.state = .blasting then
            { m.decayNoMemBackoff.tracker with lastRemoteActivityMs := (managerContext e).now }
            else m.decayNoMemBackoff.tracker } : Manager).core = m.decayNoMemBackoff.core := by
      split <;> rfl
    rw [hcore, core_decayNoMemBackoff]
    exact .single hsent
  · rw [core_decayNoMemBackoff]
    exact .single hsent

/-- When all is sent the manager sends `BLAST_COMPLETE` and waits for the gaps. -/
theorem closeBlast_moves (hs : m.state = .blasting) :
    Moves (m.core, fs) ((m.closeBlast (managerContext e) fs).1.core,
      (m.closeBlast (managerContext e) fs).2) := by
  have hsent := m.sendBlastComplete_moves (e := e) fs (.inl hs)
  unfold closeBlast
  dsimp only
  split
  · next hok =>
    have hstate := sendBlastComplete_state (managerContext e) hok
    exact .tail hsent (.wait (hstate.trans hs))
  · exact hsent

/-- The queue is served chunk by chunk. -/
theorem pumpQueuedChunks_moves :
    Moves (m.core, fs) ((m.pumpQueuedChunks (managerContext e) fs).1.core,
      (m.pumpQueuedChunks (managerContext e) fs).2) := by
  unfold pumpQueuedChunks
  split
  · exact .refl
  next hst =>
  have hstate : m.state = .blasting := not_not.mp (not_or.mp hst).1
  split
  · split
    · exact m.closeBlast_moves fs hstate
    · exact .refl
  next q rest hpend =>
  have hsent := m.sendChunk_moves (e := e) fs q hstate
  dsimp only
  split
  · exact hsent
  next hok =>
  obtain ⟨hst₁, -⟩ := sendChunk_state (managerContext e) (m := m) (p := fs) (q := q)
    (by simpa using hok)
  split
  · have hclose := closeBlast_moves (e := e)
      ((m.sendChunk (managerContext e) fs q).1.popChunk q.sequence rest)
      (m.sendChunk (managerContext e) fs q).2.1 (hst₁.trans hstate)
    rw [core_popChunk] at hclose
    exact .trans hsent hclose
  · exact hsent

/-- What the loop does in its state is a sequence of moves. -/
theorem advance_moves :
    Moves (m.core, fs) ((m.advance (managerContext e) fs).1.core,
      (m.advance (managerContext e) fs).2) := by
  unfold advance
  split
  · split
    · exact m.sendAnnounce_moves fs
    · exact .refl
  · have hpump := (m.pumpBlasting (managerContext e)).pumpQueuedChunks_moves (e := e) fs
    rw [core_pumpBlasting] at hpump
    exact hpump
  · next hst =>
    split
    · split
      · exact m.failTransfer_moves fs _ _ _ (by rw [hst]; decide) (by decide)
      · exact m.sendBlastComplete_moves fs (.inr hst)
    · exact .refl
  · next hst =>
    split
    · exact m.sendEnd_moves fs hst
    · exact .refl
  · exact .refl
  · exact .refl

/-- So is the loop, with its timeouts. -/
theorem loop_moves :
    Moves (m.core, fs) ((m.loop (managerContext e) fs).1.core,
      (m.loop (managerContext e) fs).2) := by
  unfold loop
  split
  · exact .refl
  next hidle =>
  have hbusy : m.state ≠ .idle := by
    intro h
    simp [isBusy, h] at hidle
  split_ifs
  · exact m.failTransfer_moves fs _ _ _ hbusy (by decide)
  · exact m.failTransfer_moves fs _ _ _ hbusy (by decide)
  · exact .refl
  · exact m.failTransfer_moves fs _ _ _ hbusy (by decide)
  · exact m.advance_moves fs

/-- A transfer that fails has a message, so that an empty one tells of success. -/
theorem abortReasonToString_ne (reason : UInt8) : abortReasonToString reason ≠ "" := by
  unfold abortReasonToString
  split_ifs <;> decide

theorem rejectReasonToString_ne (reason : UInt8) : rejectReasonToString reason ≠ "" := by
  unfold rejectReasonToString
  split_ifs <;> decide

theorem completeResultToString_ne (result : UInt8) : completeResultToString result ≠ "" := by
  unfold completeResultToString
  split_ifs <;> decide

theorem onSourceAbort_moves (reason : UInt8) :
    Moves (m.core, fs) ((m.onSourceAbort (managerContext e) fs reason).1.core,
      (m.onSourceAbort (managerContext e) fs reason).2) := by
  unfold onSourceAbort
  split
  · next hbusy =>
    exact m.failTransfer_moves fs _ _ _ (by simpa [isBusy] using hbusy) (abortReasonToString_ne _)
  · exact .refl

/-- `start_transfer` refuses, or announces the file. -/
theorem startTransfer_moves (mac : Mac) (fileSize : Nat) (md5 : Octets 16) (action : UInt8)
    (maxFrame : Nat) (fileId : Octets 12) :
    let y := m.startTransfer (managerContext e) fs mac fileSize md5 action maxFrame fileId
    (∃ message, y.1.core = { m.core with lastError := message } ∧ y.2.1 = fs) ∨
      m.state = .idle ∧ fileSize ≤ 1073741824 ∧
        Moves (Core.started ⟨fileSize, md5, action, fileId⟩ (clampChunkSize maxFrame), fs)
          (y.1.core, y.2.1) := by
  dsimp only
  unfold startTransfer
  split_ifs with h₀ hbusy hsize hchunk
  · exact .inl ⟨m.lastError, rfl, rfl⟩
  · exact .inl ⟨_, rfl, rfl⟩
  · exact .inl ⟨_, rfl, rfl⟩
  · exact .inl ⟨_, rfl, rfl⟩
  · refine .inr ⟨by simpa [isBusy] using hbusy, by omega, ?_⟩
    exact sendAnnounce_moves
      { config := m.config
        maxEncryptedPlaintext := maxPlaintext maxFrame
        leafMac := mac, md5, fileSize, action, fileId
        requestedChunkSize := clampChunkSize maxFrame
        negotiatedChunkSize := clampChunkSize maxFrame
        transferStartedMs := e.now
        lastActivityMs := e.now
        state := .announcing } fs

/-! ### Acknowledgements -/

/-- An `ACCEPT` that is taken is one reaction, followed by moves. -/
theorem handleAccept_moves (ref : UInt32) (trailing : Bytes) (hs : m.state = .announcing)
    (href : ref = m.announceTxCounter) :
    ∃ c, Reaction 0x00 ref trailing m.core c ∧
      Moves (c, fs) ((m.handleAccept (managerContext e) fs trailing).1.core,
        (m.handleAccept (managerContext e) fs trailing).2) := by
  have hbusy : m.state ≠ .idle := by rw [hs]; decide
  have hfail {message : String} (hno : ¬ m.core.Acceptable trailing) (hm : message ≠ "") :
      ∃ c, Reaction 0x00 ref trailing m.core c ∧
        Moves (c, fs) ((m.failTransfer (managerContext e) fs 0x03 message true).1.core,
          (m.failTransfer (managerContext e) fs 0x03 message true).2) :=
    ⟨m.core, .misfit rfl hs href hno, m.failTransfer_moves fs _ _ _ hbusy hm⟩
  unfold handleAccept
  split
  · next h =>
    refine hfail (fun hacc => ?_) (by decide)
    exact absurd hacc.1 (by omega)
  dsimp only
  split
  · next h => exact hfail (fun hacc => h hacc.2.1) (by decide)
  split
  · next h =>
    refine hfail (fun hacc => ?_) (by decide)
    rcases h with h | h
    · exact hacc.2.2.1 h
    · exact absurd hacc.2.2.2.1 (Nat.not_le.mpr h)
  split
  · next h => exact hfail (fun hacc => hacc.2.2.2.2.1 h) (by decide)
  split
  · -- the tracker is filled in before the geometry is looked at
    next h =>
    refine ⟨m.core, .misfit rfl hs href fun hacc => hacc.2.2.2.2.2 h, ?_⟩
    rw [core_failTransfer]
    rcases failTransfer_snd (managerContext e) _ fs 0x03 "invalid negotiated geometry" true
      with heq | heq
    · rw [heq]
      exact .single (.fail _ hbusy (by decide))
    · rw [heq]
      exact .head (.abort _ _ hbusy) (.single (.fail _ hbusy (by decide)))
  · next h₁ h₂ h₃ h₄ h₅ =>
    refine ⟨_, .accept rfl hs href ⟨by omega, not_not.mp h₂, ?_, ?_, h₄, h₅⟩, .refl⟩
    · exact fun h => h₃ (.inl h)
    · exact Nat.le_of_not_lt fun h => h₃ (.inr h)

/-- So is a `GAPS` that is taken. -/
theorem handleGapsAck_moves (ref : UInt32) (trailing : Bytes) (hs : m.state = .waitingGaps)
    (href : ref ∈ m.tracker.blastCompleteTxHistory) :
    ∃ c, Reaction 0x05 ref trailing m.core c ∧
      Moves (c, fs) ((m.handleGapsAck (managerContext e) fs trailing).1.core,
        (m.handleGapsAck (managerContext e) fs trailing).2) := by
  have hbusy : m.state ≠ .idle := by rw [hs]; decide
  have hfail (reason : UInt8) {message : String} (hm : message ≠ "") :
      ∃ c, Reaction 0x05 ref trailing m.core c ∧
        Moves (c, fs) ((m.failTransfer (managerContext e) fs reason message true).1.core,
          (m.failTransfer (managerContext e) fs reason message true).2) :=
    ⟨m.core, .exhausted rfl hs href, m.failTransfer_moves fs _ _ _ hbusy hm⟩
  unfold handleGapsAck
  split
  · exact hfail _ (by decide)
  dsimp only
  split
  · exact hfail _ (by decide)
  next hlen =>
  split
  · next h₀ =>
    split
    · next hlast =>
      have hlast : m.tracker.geometry.totalIncrements ≤ m.tracker.currentIncrement + 1 := by
        simpa [IncrementTracker.isLastIncrement] using hlast
      exact ⟨_, .last rfl hs href h₀ hlast,
        sendEnd_moves { m with state := .ending, controlAttemptCount := 0 } fs rfl⟩
    · next hmore =>
      have hmore : m.tracker.currentIncrement + 1 < m.tracker.geometry.totalIncrements := by
        simpa [IncrementTracker.isLastIncrement] using hmore
      exact ⟨_, .next rfl hs href h₀ hmore, .refl⟩
  next h₀ =>
  split
  · exact hfail _ (by decide)
  split
  · next hgaps =>
    refine ⟨_, .full rfl hs href h₀ (by omega) fun i hi => ?_, .refl⟩
    by_contra hbit
    have hcount : m.tracker.chunksInThisIncrement =
        m.tracker.geometry.chunksInIncrement m.tracker.currentIncrement := by
      simp [IncrementTracker.chunksInThisIncrement, IncrementTracker.isLastIncrement,
        Geometry.chunksInIncrement]
    have hmem : m.tracker.incrementStartSeq + i ∈
        m.missingSequences ((trailing.drop 2).take (leDecode (trailing.take 2))) := by
      refine Finset.mem_image_of_mem _ (Finset.mem_filter.mpr ⟨?_, by simpa using hbit⟩)
      rw [Finset.mem_range, hcount]
      exact hi
    rw [hgaps] at hmem
    exact absurd hmem (Finset.notMem_empty _)
  · exact ⟨_, .gaps rfl hs href h₀, .refl⟩

/-- So is a `COMPLETE`, which is taken in every busy state. -/
theorem handleComplete_moves (ref : UInt32) (trailing : Bytes) (hbusy : m.state ≠ .idle) :
    ∃ c, Reaction 0x03 ref trailing m.core c ∧
      Moves (c, fs) ((m.handleComplete (managerContext e) fs trailing).1.core,
        (m.handleComplete (managerContext e) fs trailing).2) := by
  unfold handleComplete
  split_ifs
  · exact ⟨_, .complete rfl, m.failTransfer_moves fs _ _ _ hbusy (by decide)⟩
  · exact ⟨_, .complete rfl, m.failTransfer_moves fs _ _ _ hbusy (by decide)⟩
  · exact ⟨_, .success rfl, .refl⟩
  · exact ⟨_, .complete rfl,
      m.failTransfer_moves fs _ _ _ hbusy (completeResultToString_ne _)⟩

/-- `on_file_ack` ignores the acknowledgement, or reacts to it. -/
theorem onFileAck_moves (mac : Mac) (ackType result : UInt8) (ref : UInt32) (trailing : Bytes) :
    let y := (m.onFileAck (managerContext e) fs mac ackType result ref trailing).1
    (y.1.core = m.core ∧ y.2 = fs) ∨
      m.state ≠ .idle ∧
        ∃ c, Reaction result ref trailing m.core c ∧ Moves (c, fs) (y.1.core, y.2) := by
  dsimp only
  unfold onFileAck
  split
  · exact .inl ⟨rfl, rfl⟩
  next hcond =>
  have hm : m.state ≠ .idle := by
    intro h
    simp [isBusy, h] at hcond
  have hbusy : (m.noteActivity (managerContext e)).state ≠ .idle := hm
  rw [← core_noteActivity (managerContext e) m]
  generalize m.noteActivity (managerContext e) = m₁ at hbusy
  unfold dispatchFileAck
  split_ifs with hacc hann href hrej hgaps hwait hhist hcomp hab
  · exact .inl ⟨rfl, rfl⟩
  · exact .inl ⟨rfl, rfl⟩
  · subst hacc
    exact .inr ⟨hm, m₁.handleAccept_moves fs ref trailing (not_not.mp hann) (not_not.mp href)⟩
  · refine .inr ⟨hm, _, .reject hrej, m₁.failTransfer_moves fs _ _ _ hbusy ?_⟩
    split
    · decide
    · exact rejectReasonToString_ne _
  · exact .inl ⟨rfl, rfl⟩
  · subst hgaps
    exact .inr ⟨hm, m₁.handleGapsAck_moves fs ref trailing (not_not.mp hwait) hhist⟩
  · exact .inl ⟨rfl, rfl⟩
  · subst hcomp
    exact .inr ⟨hm, m₁.handleComplete_moves fs ref trailing hbusy⟩
  · exact .inr ⟨hm, _, .abort hab, m₁.failTransfer_moves fs _ _ _ hbusy (abortReasonToString_ne _)⟩
  · exact .inl ⟨rfl, rfl⟩

/-- Only an `ACCEPT` takes an announcing manager to `BLASTING`. -/
theorem onFileAck_accepted (mac : Mac) (ackType result : UInt8) (ref : UInt32) (trailing : Bytes)
    (hs : m.state = .announcing)
    (h : (m.onFileAck (managerContext e) fs mac ackType result ref trailing).1.1.state =
      .blasting) :
    (m.onFileAck (managerContext e) fs mac ackType result ref trailing).1 =
      (m.noteActivity (managerContext e)).handleAccept (managerContext e) fs trailing := by
  have hann : m.state ≠ .blasting := by rw [hs]; decide
  revert h
  unfold onFileAck
  split
  · exact fun h => absurd h hann
  unfold dispatchFileAck
  split_ifs
  · exact fun h => absurd h hann
  · exact fun h => absurd h hann
  · exact fun _ => rfl
  · exact fun h => absurd h (by simp [handleReject])
  · exact fun h => absurd h hann
  · next hgaps _ _ => exact absurd hs (by simp_all [noteActivity])
  · exact fun h => absurd h hann
  · unfold handleComplete
    split_ifs
    · exact fun h => absurd h (by simp)
    · exact fun h => absurd h (by simp)
    · exact fun h => absurd h (by simp [reset])
    · exact fun h => absurd h (by simp)
  · exact fun h => absurd h (by simp [handleAbortAck])
  · exact fun h => absurd h hann

/-- The manager keeps the sizes of an `ACCEPT` that it takes. -/
theorem handleAccept_blasting {trailing : Bytes}
    (h : (m.handleAccept (managerContext e) fs trailing).1.state = .blasting) :
    (m.handleAccept (managerContext e) fs trailing).1.core = { m.core with
        state := .blasting
        geometry := m.core.negotiated trailing
        currentIncrement := 0
        blastCompleteTxHistory := [] } ∧
      (m.handleAccept (managerContext e) fs trailing).2 = fs ∧
      (m.handleAccept (managerContext e) fs trailing).1.negotiatedChunkSize =
        leDecode (trailing.take 2) ∧ (trailing.getD 2 0).toNat ≠ 0 := by
  revert h
  unfold handleAccept
  dsimp only
  split_ifs with _ _ _ hkb
  · exact fun h => absurd h (by simp)
  · exact fun h => absurd h (by simp)
  · exact fun h => absurd h (by simp)
  · exact fun h => absurd h (by simp)
  · exact fun h => absurd h (by simp)
  · exact fun _ => ⟨rfl, rfl, rfl, hkb⟩

/-- Only an `ACCEPT` takes an announcing manager to blasting. -/
theorem onFileAck_blasting (mac : Mac) (ackType result : UInt8) (ref : UInt32) (trailing : Bytes)
    (hs : m.state = .announcing)
    (h : (m.onFileAck (managerContext e) fs mac ackType result ref trailing).1.1.state =
      .blasting) :
    (m.onFileAck (managerContext e) fs mac ackType result ref trailing).1.1.core = { m.core with
        state := .blasting
        geometry := m.core.negotiated trailing
        currentIncrement := 0
        blastCompleteTxHistory := [] } ∧
      (m.onFileAck (managerContext e) fs mac ackType result ref trailing).1.2 = fs := by
  have heq := m.onFileAck_accepted fs mac ackType result ref trailing hs h
  rw [heq] at h ⊢
  obtain ⟨hcore, hframes, -⟩ := (m.noteActivity (managerContext e)).handleAccept_blasting fs h
  exact ⟨hcore, hframes⟩

/-- An acceptable `ACCEPT` of the last `ANNOUNCE` does not end the transfer. -/
theorem onFileAck_acceptable (mac : Mac) (ackType : UInt8) {trailing : Bytes}
    (hs : m.state = .announcing) (h : m.core.Acceptable trailing) :
    (m.onFileAck (managerContext e) fs mac ackType 0x00 m.announceTxCounter
      trailing).1.1.state ≠ .idle := by
  obtain ⟨hlen, haction, hchunk, hle, hkb, hgeo⟩ := h
  have haction : trailing.getD 3 0 = m.action := haction
  have hle : leDecode (trailing.take 2) ≤ m.requestedChunkSize := hle
  have hgeo : (Geometry.ofTransfer m.fileSize (leDecode (trailing.take 2))
    (trailing.getD 2 0).toNat).totalChunks ≠ 0 := hgeo
  unfold onFileAck
  split
  · simp [hs]
  · simp only [dispatchFileAck, noteActivity, hs, ne_eq, not_true_eq_false, if_true, if_false,
      handleAccept, Nat.not_lt.mpr hlen, haction, hchunk, Nat.not_lt.mpr hle, or_self, hkb, hgeo]
    simp [requestIncrementChunks]

end Functions

end Manager

end OtaManager

end EspTree
