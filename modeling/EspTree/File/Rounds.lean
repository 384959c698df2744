import EspTree.File.Transfer
import EspTree.Lib.Pipeline

/-!
# The rounds of the transfer manager

In a round the manager asks the source for the chunks of a target set, queues them as they come and
sends them one by one; after the last one it sends `BLAST_COMPLETE`.  The target is the whole
increment in round 0, and what the last `GAPS` acknowledgement shows to be missing in a later round.

`Turn` lists what a call of the manager can do to the places of these chunks, its `Board`, so an
invariant of the rounds is proved once per turn.  `blast_rounds` says that the three places split the
target, and `blastComplete_sent` that `BLAST_COMPLETE` goes out when all of it has been sent.
-/

namespace EspTree

open Wire Transfer

namespace OtaManager

/-! ## The board -/

/-- Where a round stands. -/
structure Board where
  state : State
  fileSize : Nat
  geometry : Geometry
  currentIncrement : Nat
  retransmitRound : Nat
  gaps : Finset Nat
  line : Pipeline Nat

namespace Board

variable (b : Board)

/-- The board after `reset_`. -/
def idle : Board := ⟨.idle, 0, .none, 0, 0, ∅, .empty⟩

/-- `increment_start_seq`. -/
def start : Nat := b.currentIncrement * b.geometry.chunksPerIncrement

/-- `chunks_in_this_increment`. -/
def chunks : Nat := b.geometry.chunksInIncrement b.currentIncrement

/-- The sequence numbers of the increment. -/
def increment : Finset Nat := Finset.Ico b.start (min (b.start + b.chunks) b.geometry.totalChunks)

/-- The sequence numbers of the round. -/
def target : Finset Nat := if b.retransmitRound = 0 then b.increment else b.gaps

/-- `request_increment_chunks_`. -/
def ask : Board := { b with line := b.line.ask b.target }

/-- The next increment is asked for. -/
def advance : Board :=
  ({ b with
      state := .blasting
      currentIncrement := (b.currentIncrement + 1) % 2 ^ 16
      retransmitRound := 0
      gaps := ∅ } : Board).ask

end Board

/-- The chunks of a manager: those it has asked for, those that wait and those that it has sent. -/
def Manager.line (m : Manager) : Pipeline Nat :=
  ⟨m.tracker.requestedSequences, m.pendingChunks.map (·.sequence), m.tracker.sentSequences⟩

/-- The board of a manager. -/
def Manager.board (m : Manager) : Board where
  state := m.state
  fileSize := m.fileSize
  geometry := m.tracker.geometry
  currentIncrement := m.tracker.currentIncrement
  retransmitRound := m.tracker.retransmitRound
  gaps := m.tracker.gapSequences
  line := m.line

/-- One thing that a call of the manager does to its board.  `report?` is what a `GAPS` acknowledgement
shows to be missing, if it is one, and the board that it is about. -/
inductive Turn (report? : Option (Board × Finset Nat)) : Board → Board → Prop
  | reset (b : Board) : Turn report? b .idle
  | announce {b : Board} (fileSize : Nat) (hs : b.state = .idle) (hpos : 0 < fileSize)
      (hmax : fileSize ≤ 2 ^ 30) :
      Turn report? b { Board.idle with state := .announcing, fileSize }
  | accept {b : Board} (chunkSize bufferKb : Nat) (hs : b.state = .announcing) (hpos : 0 < chunkSize) :
      Turn report? b ({ b with
        state := .blasting
        geometry := .ofTransfer b.fileSize chunkSize bufferKb
        currentIncrement := 0
        retransmitRound := 0 } : Board).ask
  | take {b : Board} {sequence : Nat} (hs : b.state = .blasting) (hasked : sequence ∈ b.line.asked) :
      Turn report? b { b with line := b.line.take sequence }
  | pop {b : Board} {sequence : Nat} {rest : List Nat} (hs : b.state = .blasting)
      (hfront : b.line.queued = sequence :: rest) :
      Turn report? b { b with line := b.line.pop sequence rest }
  | refill {b : Board} (hs : b.state = .blasting) (hasked : b.line.asked = ∅)
      (hqueued : b.line.queued = []) (hdone : b.line.done = ∅) : Turn report? b b.ask
  | close {b : Board} (hs : b.state = .blasting) (hasked : b.line.asked = ∅)
      (hqueued : b.line.queued = []) : Turn report? b { b with state := .waitingGaps }
  | finish {b : Board} (hs : b.state = .waitingGaps) : Turn report? b { b with state := .ending }
  /-- The increment is complete. -/
  | next {b : Board} (hs : b.state = .waitingGaps)
      (hmore : b.currentIncrement + 1 < b.geometry.totalIncrements) : Turn report? b b.advance
  /-- A bitmap shows all chunks, whichever increment it is. -/
  | full {b : Board} (hs : b.state = .waitingGaps) (hreport : report? = some (b, ∅))
      (hrounds : b.retransmitRound < maxRetransmitRounds) : Turn report? b b.advance
  | gaps {b : Board} {missing : Finset Nat} (hs : b.state = .waitingGaps)
      (hreport : report? = some (b, missing)) (hne : missing.Nonempty)
      (hsub : missing ⊆ Finset.Ico b.start (b.start + b.chunks))
      (hrounds : b.retransmitRound < maxRetransmitRounds) :
      Turn report? b ({ b with
        state := .blasting
        retransmitRound := b.retransmitRound + 1
        gaps := missing } : Board).ask

/-- A sequence of turns. -/
abbrev Turns (report? : Option (Board × Finset Nat)) : Board → Board → Prop :=
  Relation.ReflTransGen (Turn report?)

/-- The tracker counts as the geometry does. -/
theorem IncrementTracker.chunksInThisIncrement_eq (t : IncrementTracker) :
    t.chunksInThisIncrement = t.geometry.chunksInIncrement t.currentIncrement := by
  unfold chunksInThisIncrement isLastIncrement Geometry.chunksInIncrement
  by_cases hlast : t.geometry.totalIncrements ≤ t.currentIncrement + 1 <;> simp [hlast]

namespace Manager

section

variable {π : Type} (x : Context π) (m : Manager) (p : π) {report? : Option (Board × Finset Nat)}

@[simp] theorem board_markNoMemBackoff : (m.markNoMemBackoff x).board = m.board := by
  simp only [markNoMemBackoff, board, line]

@[simp] theorem board_decayNoMemBackoff : m.decayNoMemBackoff.board = m.board := by
  unfold decayNoMemBackoff
  split <;> rfl

/-- Asking for an increment puts all of its chunks into the first stage. -/
theorem board_requestIncrementChunks : m.requestIncrementChunks.board = m.board.ask := by
  simp only [requestIncrementChunks, board, line, Board.ask, Board.target, Board.increment, Board.start,
    Board.chunks, ← IncrementTracker.chunksInThisIncrement_eq]
  rfl

/-- The transfer fails. -/
theorem failTransfer_turns (reason : UInt8) (message : String) (notifyRemote : Bool) :
    Turns report? m.board (m.failTransfer x p reason message notifyRemote).1.board :=
  .single (.reset _)

theorem sendAnnounce_turns : Turns report? m.board (m.sendAnnounce x p).1.board := by
  unfold sendAnnounce
  dsimp only
  split_ifs
  · exact .refl
  · exact failTransfer_turns ..
  · split
    · rw [board_markNoMemBackoff]
    · exact .refl
    · exact .single (.reset _)
    · exact .single (.reset _)

theorem startTransfer_turns (leafMac : Mac) (fileSize : Nat) (md5 : Octets 16) (action : UInt8)
    (remoteMaxFramePayload : Nat) (fileId : Octets 12) :
    Turns report? m.board
      (m.startTransfer x p leafMac fileSize md5 action remoteMaxFramePayload fileId).1.board := by
  unfold startTransfer
  split_ifs with hzero hbusy hmax
  · exact .refl
  · exact .refl
  · exact .refl
  · exact .refl
  · have hidle : m.state = .idle := by simpa [isBusy] using hbusy
    refine .trans (.single (.announce fileSize hidle (Nat.pos_of_ne_zero hzero) (Nat.not_lt.mp hmax))) ?_
    exact sendAnnounce_turns x ({ config := m.config
                                  maxEncryptedPlaintext := maxPlaintext remoteMaxFramePayload
                                  leafMac, md5, fileSize, action, fileId
                                  requestedChunkSize := clampChunkSize remoteMaxFramePayload
                                  negotiatedChunkSize := clampChunkSize remoteMaxFramePayload
                                  transferStartedMs := x.now
                                  lastActivityMs := x.now
                                  state := .announcing } : Manager) p

theorem sendBlastComplete_turns : Turns report? m.board (m.sendBlastComplete x p).1.board := by
  unfold sendBlastComplete
  dsimp only
  split
  · rw [board_markNoMemBackoff]
  · exact .refl
  · exact .single (.reset _)
  · exact .refl

theorem sendEnd_turns (hs : m.state = .ending) : Turns report? m.board (m.sendEnd x p).1.board := by
  unfold sendEnd
  dsimp only
  split_ifs
  · exact .refl
  · exact failTransfer_turns ..
  · split
    · exact .single (.reset _)
    · have hsame : ({ m.clearNoMemBackoff with
          state := .ending
          lastControlSendMs := x.now
          lastActivityMs := x.now
          controlAttemptCount := m.clearNoMemBackoff.controlAttemptCount + 1 } : Manager).board =
            m.board := by
        simp only [board, ← hs]
        rfl
      rw [hsame]
    · exact .single (.reset _)
    · exact .single (.reset _)

/-- A chunk that goes out moves from the queue to those that were sent. -/
theorem sendChunk_turns (chunk : QueuedChunk) :
    Turns report? m.board (m.sendChunk x p chunk).1.board := by
  unfold sendChunk
  dsimp only
  split
  · exact failTransfer_turns ..
  · split
    · rw [board_markNoMemBackoff]
    · have hsame : ({ m.decayNoMemBackoff with
          lastChunkSendMs := x.now
          lastActivityMs := x.now
          tracker := if m.decayNoMemBackoff.state = .blasting then
            { m.decayNoMemBackoff.tracker with lastRemoteActivityMs := x.now }
            else m.decayNoMemBackoff.tracker } : Manager).board = m.decayNoMemBackoff.board := by
        split <;> rfl
      rw [hsame, board_decayNoMemBackoff]
    · rw [board_decayNoMemBackoff]

/-- A chunk or a `BLAST_COMPLETE` that was sent leaves the board. -/
theorem board_sendChunk (chunk : QueuedChunk) (h : (m.sendChunk x p chunk).2.2 = true) :
    (m.sendChunk x p chunk).1.board = m.board := by
  revert h
  unfold sendChunk
  dsimp only
  split
  · simp
  · split
    · simp
    · intro _
      have hsame : ({ m.decayNoMemBackoff with
          lastChunkSendMs := x.now
          lastActivityMs := x.now
          tracker := if m.decayNoMemBackoff.state = .blasting then
            { m.decayNoMemBackoff.tracker with lastRemoteActivityMs := x.now }
            else m.decayNoMemBackoff.tracker } : Manager).board = m.decayNoMemBackoff.board := by
        split <;> rfl
      exact hsame.trans (board_decayNoMemBackoff m)
    · simp

theorem board_sendBlastComplete : (m.sendBlastComplete x p).1.board = m.board ∨
    (m.sendBlastComplete x p).1.board = .idle ∧ (m.sendBlastComplete x p).2.2 = false := by
  unfold sendBlastComplete
  dsimp only
  split
  · exact .inl (board_markNoMemBackoff x m)
  · exact .inl rfl
  · exact .inr ⟨rfl, rfl⟩
  · exact .inl rfl

/-- A chunk that the source gives moves from those asked for to the queue. -/
theorem onSourceChunk_turns (sequence : Nat) (data : Bytes) :
    Turns report? m.board (m.onSourceChunk sequence data).1.board := by
  unfold onSourceChunk
  dsimp only
  split
  · exact .refl
  next hs =>
  split
  · exact .refl
  next hasked =>
  split
  · exact .refl
  · have htake : ({ m with
        pendingChunks := m.pendingChunks ++ [⟨sequence, data⟩]
        tracker := { m.tracker with
          requestedSequences := m.tracker.requestedSequences.erase sequence } } : Manager).board =
          { m.board with line := m.board.line.take sequence } := by
      simp [board, line, Pipeline.take]
    rw [htake]
    exact .single (.take (not_not.mp hs) (not_not.mp hasked))

theorem onSourceAbort_turns (reason : UInt8) :
    Turns report? m.board (m.onSourceAbort x p reason).1.board := by
  unfold onSourceAbort
  split_ifs
  · exact failTransfer_turns ..
  · exact .refl

theorem pumpBlasting_turns : Turns report? m.board (m.pumpBlasting x).board := by
  unfold pumpBlasting
  split_ifs with hheld hempty
  · exact .refl
  · obtain ⟨hasked, hdone, hqueued⟩ := hempty
    have hs : m.state = .blasting := not_not.mp (not_or.mp hheld).1
    rw [board_requestIncrementChunks]
    refine .single (.refill hs hasked ?_ hdone)
    change m.pendingChunks.map _ = []
    rw [hqueued]
    rfl
  · exact .refl

/-- A round is closed when nothing is asked for and nothing waits. -/
theorem closeBlast_turns (hs : m.state = .blasting) (hasked : m.tracker.requestedSequences = ∅)
    (hqueued : m.pendingChunks = []) : Turns report? m.board (m.closeBlast x p).1.board := by
  have hturns : Turns report? m.board (m.sendBlastComplete x p).1.board := m.sendBlastComplete_turns x p
  unfold closeBlast
  dsimp only
  split_ifs with hok
  · have hsame : (m.sendBlastComplete x p).1.board = m.board := by
      rcases m.board_sendBlastComplete x p with hsame | ⟨-, hnot⟩
      · exact hsame
      · rw [hnot] at hok
        cases hok
    have hclose : ({ (m.sendBlastComplete x p).1 with state := .waitingGaps } : Manager).board =
        { m.board with state := .waitingGaps } := by
      rw [← hsame]
      rfl
    rw [hclose]
    refine .single (.close hs hasked ?_)
    change m.pendingChunks.map _ = []
    rw [hqueued]
    rfl
  · exact hturns

/-- Serving the queue is a sequence of turns. -/
theorem pumpQueuedChunks_turns : Turns report? m.board (m.pumpQueuedChunks x p).1.board := by
  unfold pumpQueuedChunks
  dsimp only
  split
  · exact .refl
  next hheld =>
  have hs : m.state = .blasting := not_not.mp (not_or.mp hheld).1
  split
  next hqueued =>
    split_ifs with hdone
    · exact closeBlast_turns x m p hs hdone.1 hqueued
    · exact .refl
  next chunk rest hqueued =>
    have hturns : Turns report? m.board (m.sendChunk x p chunk).1.board := m.sendChunk_turns x p chunk
    have hsame := m.board_sendChunk x p chunk
    obtain ⟨m', p', sent, hsend⟩ : ∃ m' p' sent, m.sendChunk x p chunk = (m', p', sent) :=
      ⟨_, _, _, rfl⟩
    rw [hsend] at hturns hsame ⊢
    cases sent with
    | false => exact hturns
    | true =>
      have hboard : m'.board = m.board := hsame rfl
      have hpop : Turn report? m'.board (m'.popChunk chunk.sequence rest).board := by
        refine .pop ?_ ?_
        · rw [hboard]
          exact hs
        · rw [hboard]
          change m.pendingChunks.map _ = _
          rw [hqueued]
          rfl
      simp only [Bool.not_true, Bool.false_eq_true, if_false]
      split_ifs with hlast
      · have hstate : (m'.popChunk chunk.sequence rest).state = .blasting :=
          (congrArg Board.state hboard).trans hs
        exact .trans (.tail hturns hpop) (closeBlast_turns x _ p' hstate hlast.2 hlast.1)
      · exact .tail hturns hpop

theorem advance_turns : Turns report? m.board (m.advance x p).1.board := by
  unfold advance
  split
  · split_ifs
    · exact sendAnnounce_turns ..
    · exact .refl
  · exact .trans (pumpBlasting_turns x m) (pumpQueuedChunks_turns ..)
  · split_ifs
    · exact failTransfer_turns ..
    · exact sendBlastComplete_turns ..
    · exact .refl
  · next hs =>
    split_ifs
    · exact sendEnd_turns x m p hs
    · exact .refl
  · exact .refl
  · exact .refl

theorem loop_turns : Turns report? m.board (m.loop x p).1.board := by
  unfold loop
  split_ifs
  · exact .refl
  · exact failTransfer_turns ..
  · exact failTransfer_turns ..
  · exact .refl
  · exact failTransfer_turns ..
  · exact advance_turns ..

/-! ### Acknowledgements -/

theorem handleAccept_turns (hs : m.state = .announcing) (trailing : Bytes) :
    Turns report? m.board (m.handleAccept x p trailing).1.board := by
  unfold handleAccept
  split
  · exact failTransfer_turns ..
  dsimp only
  split
  · exact failTransfer_turns ..
  split
  · exact failTransfer_turns ..
  next hsize =>
  split
  · exact failTransfer_turns ..
  split
  · exact .single (.reset _)
  · rw [board_requestIncrementChunks]
    have hpos : 0 < leDecode (trailing.take 2) := Nat.pos_of_ne_zero (not_or.mp hsize).1
    exact .single (.accept _ (trailing.getD 2 0).toNat hs hpos)

/-- The chunks that a `GAPS` acknowledgement reports to be missing, if it has a bitmap. -/
def gapsIn? (trailing : Bytes) : Option (Finset Nat) :=
  if trailing.length < 2 ∨ trailing.length < 2 + leDecode (trailing.take 2) ∨
      leDecode (trailing.take 2) = 0 then none
  else some (m.missingSequences ((trailing.drop 2).take (leDecode (trailing.take 2))))

/-- What a bitmap shows to be missing is of the present increment. -/
theorem missingSequences_subset (bitmap : Bytes) :
    m.missingSequences bitmap ⊆ Finset.Ico m.board.start (m.board.start + m.board.chunks) := by
  intro sequence hmem
  obtain ⟨i, hi, rfl⟩ := Finset.mem_image.mp hmem
  have hlt := Finset.mem_range.mp (Finset.mem_filter.mp hi).1
  rw [IncrementTracker.chunksInThisIncrement_eq] at hlt
  change i < m.board.chunks at hlt
  change m.board.start + i ∈ _
  rw [Finset.mem_Ico]
  omega

/-- A `GAPS` begins another round with what is missing, or the next increment. -/
theorem handleGapsAck_turns (hs : m.state = .waitingGaps) (trailing : Bytes) :
    Turns ((m.gapsIn? trailing).map (m.board, ·)) m.board (m.handleGapsAck x p trailing).1.board := by
  unfold handleGapsAck
  split
  · exact failTransfer_turns ..
  next hlen =>
  dsimp only
  split
  · exact failTransfer_turns ..
  next hlen' =>
  split
  · split
    · exact .trans (.single (.finish hs))
        (sendEnd_turns x ({ m with state := .ending, controlAttemptCount := 0 } : Manager) p rfl)
    next hmore =>
      have hmore' : m.tracker.currentIncrement + 1 < m.tracker.geometry.totalIncrements := by
        simpa [IncrementTracker.isLastIncrement] using hmore
      rw [board_requestIncrementChunks]
      exact .single (.next hs hmore')
  next hbitmap =>
  split
  · exact failTransfer_turns ..
  next hrounds =>
  have hreport : (m.gapsIn? trailing).map (m.board, ·) =
      some (m.board, m.missingSequences ((trailing.drop 2).take (leDecode (trailing.take 2)))) := by
    unfold gapsIn?
    rw [if_neg (not_or.mpr ⟨hlen, not_or.mpr ⟨hlen', hbitmap⟩⟩)]
    rfl
  have hsub := m.missingSequences_subset ((trailing.drop 2).take (leDecode (trailing.take 2)))
  generalize m.missingSequences ((trailing.drop 2).take (leDecode (trailing.take 2))) = missing
    at hreport hsub ⊢
  split
  next hnone =>
    rw [hnone] at hreport
    rw [board_requestIncrementChunks]
    exact .single (.full hs hreport (Nat.not_le.mp hrounds))
  next hsome =>
    have hround : (m.tracker.retransmitRound + 1) % 2 ^ 8 = m.board.retransmitRound + 1 := by
      unfold maxRetransmitRounds at hrounds
      change _ = m.tracker.retransmitRound + 1
      omega
    have hgaps : ({ m with
        tracker := { m.tracker with
          gapSequences := missing
          retransmitRound := (m.tracker.retransmitRound + 1) % 2 ^ 8
          blastCompleteRetries := 0
          blastCompleteTxHistory := []
          requestedSequences := missing
          sentSequences := ∅ }
        state := .blasting } : Manager).board = ({ m.board with
          state := .blasting
          retransmitRound := m.board.retransmitRound + 1
          gaps := missing } : Board).ask := by
      rw [← hround]
      simp only [board, line, Board.ask, Board.target, Pipeline.ask]
      rw [if_neg (by rw [hround]; exact Nat.succ_ne_zero _)]
    rw [hgaps]
    exact .single (.gaps hs hreport (Finset.nonempty_iff_ne_empty.mpr hsome) hsub
      (Nat.not_le.mp hrounds))

/-- What an acknowledgement reports to be missing: it is the `GAPS` that the manager waits for. -/
def reported? (leafMac : Mac) (ackType result : UInt8) (ref : UInt32) (trailing : Bytes) :
    Option (Finset Nat) :=
  if ackType = PacketType.fileTransfer.code ∧ m.leafMac = leafMac ∧ result = 0x05 ∧
      m.state = .waitingGaps ∧ ref ∈ m.tracker.blastCompleteTxHistory then m.gapsIn? trailing
  else none

/-- An acknowledgement is a sequence of turns, with at most one report of gaps. -/
theorem onFileAck_turns (leafMac : Mac) (ackType result : UInt8) (ref : UInt32) (trailing : Bytes) :
    Turns ((m.reported? leafMac ackType result ref trailing).map (m.board, ·)) m.board
      (m.onFileAck x p leafMac ackType result ref trailing).1.1.board := by
  unfold onFileAck
  split
  · exact .refl
  next hown =>
  have hnote : (m.noteActivity x).board = m.board := rfl
  rw [← hnote]
  rw [not_or, not_or, not_not, not_not] at hown
  unfold dispatchFileAck
  split
  · split
    · exact .refl
    next hs =>
    split
    · exact .refl
    · exact handleAccept_turns x (m.noteActivity x) p (not_not.mp hs) trailing
  split
  · exact failTransfer_turns ..
  split
  next hgaps =>
    split
    · exact .refl
    next hs =>
    split
    · exact .refl
    next href =>
      have hreported : m.reported? leafMac ackType result ref trailing =
          (m.noteActivity x).gapsIn? trailing := by
        unfold reported?
        rw [if_pos ⟨hown.2.1, hown.2.2, hgaps, not_not.mp hs, not_not.mp href⟩]
        rfl
      rw [hreported]
      exact handleGapsAck_turns x (m.noteActivity x) p (not_not.mp hs) trailing
  split
  · unfold handleComplete
    split_ifs <;> exact .single (.reset _)
  split
  · exact failTransfer_turns ..
  · exact .refl

/-- An acknowledgement that reports missing chunks goes to `handle_gaps_ack_`. -/
theorem onFileAck_of_reported {leafMac : Mac} {ackType result : UInt8} {ref : UInt32} {trailing : Bytes}
    {missing : Finset Nat} (h : m.reported? leafMac ackType result ref trailing = some missing) :
    m.state = .waitingGaps ∧ m.gapsIn? trailing = some missing ∧
      m.onFileAck x p leafMac ackType result ref trailing =
        ((m.noteActivity x).handleGapsAck x p trailing, true) := by
  unfold reported? at h
  split at h
  next hown =>
    obtain ⟨htype, hmac, rfl, hs, href⟩ := hown
    refine ⟨hs, h, ?_⟩
    unfold onFileAck dispatchFileAck
    rw [if_neg (by simp [isBusy, hs, htype, hmac])]
    simp [noteActivity, hs, href]
  · cases h

/-- `handle_gaps_ack_` with a bitmap: the transfer fails after too many rounds, the next increment is
asked for if nothing is missing, and otherwise what is missing. -/
theorem handleGapsAck_of_gapsIn {trailing : Bytes} {missing : Finset Nat}
    (h : m.gapsIn? trailing = some missing) :
    (m.handleGapsAck x p trailing).1.board = .idle ∧ maxRetransmitRounds ≤ m.tracker.retransmitRound ∨
      m.tracker.retransmitRound < maxRetransmitRounds ∧
        (missing = ∅ ∧ (m.handleGapsAck x p trailing).1.board = m.board.advance ∨
          missing ≠ ∅ ∧ (m.handleGapsAck x p trailing).1.tracker.gapSequences = missing) := by
  unfold gapsIn? at h
  split at h
  · cases h
  next hbitmap =>
    obtain ⟨hlen, hlen', hbitmap⟩ : ¬ trailing.length < 2 ∧
        ¬ trailing.length < 2 + leDecode (trailing.take 2) ∧ leDecode (trailing.take 2) ≠ 0 := by
      simpa [not_or] using hbitmap
    have hmissing := Option.some.inj h
    unfold handleGapsAck
    rw [if_neg hlen]
    dsimp only
    rw [if_neg hlen', if_neg hbitmap, hmissing]
    split
    next hrounds => exact .inl ⟨rfl, hrounds⟩
    next hrounds =>
      refine .inr ⟨Nat.not_le.mp hrounds, ?_⟩
      split
      next hnone =>
        refine .inl ⟨hnone, ?_⟩
        rw [board_requestIncrementChunks]
        rfl
      next hsome => exact .inr ⟨hsome, rfl⟩

end

end Manager

namespace Board

/-! ## The three places split the target -/

/-- The places of a round that is open, and of one that waits for its gaps. -/
structure InRound (b : Board) : Prop where
  quiet : b.state = .idle ∨ b.state = .announcing → b.line.queued = []
  blasting : b.state = .blasting → b.line.Splits b.target
  waiting : b.state = .waitingGaps → b.line.asked = ∅ ∧ b.line.queued = [] ∧ b.line.done = b.target

variable {report? : Option (Board × Finset Nat)} {b b' : Board}

/-- A round is opened while nothing waits. -/
theorem inRound_ask (hs : b.state = .blasting) (hqueued : b.line.queued = []) : b.ask.InRound := by
  refine ⟨fun h => ?_, fun _ => Pipeline.splits_ask hqueued b.target, fun h => ?_⟩
  · change b.state = .idle ∨ b.state = .announcing at h
    rw [hs] at h
    rcases h with h | h <;> cases h
  · change b.state = .waitingGaps at h
    rw [hs] at h
    cases h

/-- A board on which only the places of an open round have changed. -/
theorem InRound.of_splits (hs : b.state = .blasting) (h : b.line.Splits b.target) : b.InRound := by
  refine ⟨fun hq => ?_, fun _ => h, fun hw => ?_⟩
  · rw [hs] at hq
    rcases hq with hq | hq <;> cases hq
  · rw [hs] at hw
    cases hw

/-- A turn keeps the three stages a partition of the target. -/
theorem InRound.turn (h : b.InRound) (hturn : Turn report? b b') : b'.InRound := by
  cases hturn with
  | reset => exact ⟨fun _ => rfl, nofun, nofun⟩
  | announce => exact ⟨fun _ => rfl, nofun, nofun⟩
  | accept chunkSize bufferKb hs => exact inRound_ask rfl (h.quiet (.inr hs))
  | take hs hasked => exact .of_splits hs ((h.blasting hs).take hasked)
  | pop hs hfront => exact .of_splits hs ((h.blasting hs).pop hfront)
  | refill hs _ hqueued => exact inRound_ask hs hqueued
  | close hs hasked hqueued =>
    exact ⟨nofun, nofun, fun _ => ⟨hasked, hqueued, (h.blasting hs).done_eq hasked hqueued⟩⟩
  | finish => exact ⟨nofun, nofun, nofun⟩
  | next hs => exact inRound_ask rfl (h.waiting hs).2.1
  | full hs => exact inRound_ask rfl (h.waiting hs).2.1
  | gaps hs => exact inRound_ask rfl (h.waiting hs).2.1

theorem InRound.turns (h : b.InRound) (hturns : Turns report? b b') : b'.InRound :=
  Transition.steps_invariant hturns (fun _ _ hb hturn _ => hb.turn hturn) h

/-- Without a report the gaps of a round stay what they are. -/
theorem gaps_of_turns (hturns : Turns none b b') :
    b'.retransmitRound = 0 ∨ b'.retransmitRound = b.retransmitRound ∧ b'.gaps = b.gaps := by
  refine Transition.steps_invariant hturns (I := fun b' => b'.retransmitRound = 0 ∨
    b'.retransmitRound = b.retransmitRound ∧ b'.gaps = b.gaps) ?_ (.inr ⟨rfl, rfl⟩)
  intro b₁ b₂ hb hturn _
  cases hturn with
  | reset | announce | accept | next | full => exact .inl rfl
  | take | pop | refill | close | finish => exact hb
  | gaps _ hreport => cases hreport

end Board

end OtaManager

/-! ## Runs -/

namespace Rounds

open OtaManager

/-- A manager with the frames that it has sent, and what the last `GAPS` acknowledgement with a bitmap
has reported to be missing. -/
structure State where
  manager : Manager
  frames : List Down := []
  lastGaps : Finset Nat := ∅

/-- A call of the manager. -/
inductive Event
  | start (e : Transfer.Env) (leafMac : Mac) (fileSize : Nat) (md5 : Octets 16) (action : UInt8)
      (remoteMaxFramePayload : Nat) (fileId : Octets 12)
  | sourceChunk (sequence : Nat) (data : Bytes)
  | sourceAbort (e : Transfer.Env) (reason : UInt8)
  | fileAck (e : Transfer.Env) (leafMac : Mac) (ackType result : UInt8) (ref : UInt32) (trailing : Bytes)
  | loop (e : Transfer.Env)

/-- What a call leaves. -/
def State.after (s : State) (y : Manager × List Down) : State :=
  { s with manager := y.1, frames := y.2 }

/-- One call. -/
def step (s : State) : Event → State
  | .start e leafMac fileSize md5 action remoteMaxFramePayload fileId =>
    let y := s.manager.startTransfer (managerContext e) s.frames leafMac fileSize md5 action
      remoteMaxFramePayload fileId
    s.after (y.1, y.2.1)
  | .sourceChunk sequence data => s.after ((s.manager.onSourceChunk sequence data).1, s.frames)
  | .sourceAbort e reason => s.after (s.manager.onSourceAbort (managerContext e) s.frames reason)
  | .fileAck e leafMac ackType result ref trailing =>
    { s.after (s.manager.onFileAck (managerContext e) s.frames leafMac ackType result ref trailing).1 with
      lastGaps := (s.manager.reported? leafMac ackType result ref trailing).getD s.lastGaps }
  | .loop e => s.after (s.manager.loop (managerContext e) s.frames)

/-- A manager that has just been made. -/
def Initial (s : State) : Prop := ∃ config, s = { manager := { config } }

/-- Calls in any order, with any arguments and in any surroundings. -/
abbrev Reachable : State → Prop := Transition.Reachable Initial (fun _ _ => True) step

/-- The target of the present round: the whole increment in round 0, and later what the last `GAPS`
acknowledgement has reported. -/
def State.target (s : State) : Finset Nat :=
  if s.manager.tracker.retransmitRound = 0 then
    Finset.Ico s.manager.tracker.incrementStartSeq s.manager.tracker.incrementEndSeq
  else s.lastGaps

/-- What the acknowledgement of a call reports to be missing. -/
def State.reported? (s : State) : Event → Option (Finset Nat)
  | .fileAck _ leafMac ackType result ref trailing =>
    s.manager.reported? leafMac ackType result ref trailing
  | _ => none

/-- Every event of a run is a sequence of turns. -/
theorem step_turns (s : State) (event : Event) :
    Turns ((s.reported? event).map (s.manager.board, ·)) s.manager.board
      (step s event).manager.board := by
  cases event with
  | start => exact Manager.startTransfer_turns ..
  | sourceChunk => exact Manager.onSourceChunk_turns ..
  | sourceAbort => exact Manager.onSourceAbort_turns ..
  | fileAck => exact Manager.onFileAck_turns ..
  | loop => exact Manager.loop_turns ..

/-- The invariant of the rounds. -/
structure Inv (s : State) : Prop where
  round : s.manager.board.InRound
  gaps : s.manager.tracker.retransmitRound ≠ 0 → s.manager.tracker.gapSequences = s.lastGaps

theorem Inv.initial {s : State} (h : Initial s) : Inv s := by
  obtain ⟨config, rfl⟩ := h
  exact ⟨⟨fun _ => rfl, nofun, nofun⟩, fun h => absurd rfl h⟩

/-- One event keeps the invariant. -/
theorem Inv.step {s : State} (h : Inv s) (event : Event) : Inv (step s event) := by
  refine ⟨h.round.turns (step_turns s event), ?_⟩
  have hkept (hnone : s.reported? event = none) :
      (Rounds.step s event).manager.tracker.retransmitRound ≠ 0 →
        (Rounds.step s event).manager.tracker.gapSequences = s.lastGaps := by
    intro hround
    have hturns := step_turns s event
    rw [hnone] at hturns
    rcases Board.gaps_of_turns hturns with hzero | ⟨hsame, hgaps⟩
    · exact absurd hzero hround
    · refine Eq.trans hgaps (h.gaps ?_)
      change _ = s.manager.tracker.retransmitRound at hsame
      rw [← hsame]
      exact hround
  cases event with
  | fileAck e leafMac ackType result ref trailing =>
    cases hreported : s.manager.reported? leafMac ackType result ref trailing with
    | none =>
      have hlast : (Rounds.step s (.fileAck e leafMac ackType result ref trailing)).lastGaps =
          s.lastGaps := by
        change (s.manager.reported? leafMac ackType result ref trailing).getD s.lastGaps = _
        rw [hreported]
        rfl
      rw [hlast]
      exact hkept hreported
    | some missing =>
      intro hround
      have hlast : (Rounds.step s (.fileAck e leafMac ackType result ref trailing)).lastGaps =
          missing := by
        change (s.manager.reported? leafMac ackType result ref trailing).getD s.lastGaps = _
        rw [hreported]
        rfl
      rw [hlast]
      obtain ⟨-, hgaps, hsame⟩ :=
        s.manager.onFileAck_of_reported (managerContext e) s.frames hreported
      change (s.manager.onFileAck (managerContext e) s.frames leafMac ackType result ref
        trailing).1.1.tracker.retransmitRound ≠ 0 at hround
      change (s.manager.onFileAck (managerContext e) s.frames leafMac ackType result ref
        trailing).1.1.tracker.gapSequences = _
      rw [hsame] at hround ⊢
      rcases (s.manager.noteActivity (managerContext e)).handleGapsAck_of_gapsIn (managerContext e)
        s.frames hgaps with ⟨hidle, -⟩ | ⟨-, ⟨-, hadvance⟩ | ⟨-, hmissing⟩⟩
      · exact absurd (congrArg Board.retransmitRound hidle) hround
      · exact absurd (congrArg Board.retransmitRound hadvance) hround
      · exact hmissing
  | start => exact hkept rfl
  | sourceChunk => exact hkept rfl
  | sourceAbort => exact hkept rfl
  | loop => exact hkept rfl

/-- The target that is read off the reports is the one that the manager works on. -/
theorem Inv.target_eq {s : State} (h : Inv s) : s.manager.board.target = s.target := by
  have hsame : s.manager.board.retransmitRound = s.manager.tracker.retransmitRound := rfl
  unfold State.target Board.target
  rw [hsame]
  by_cases hround : s.manager.tracker.retransmitRound = 0
  · rw [if_pos hround, if_pos hround]
    unfold IncrementTracker.incrementEndSeq
    rw [IncrementTracker.chunksInThisIncrement_eq]
    rfl
  · rw [if_neg hround, if_neg hround]
    exact h.gaps hround

end Rounds

/-! ## When `BLAST_COMPLETE` goes out -/

/-- The frame is a `BLAST_COMPLETE`. -/
def Transfer.Down.IsBlastComplete (f : Down) : Prop :=
  f.type = .fileTransfer ∧ f.payload.head? = some 0x03

instance (f : Down) : Decidable f.IsBlastComplete := inferInstanceAs (Decidable (_ ∧ _))

namespace OtaManager

/-- The frames that a call adds are no `BLAST_COMPLETE`. -/
def Quiet (fs fs' : List Down) : Prop := ∃ new, fs' = fs ++ new ∧ ∀ f ∈ new, ¬ f.IsBlastComplete

namespace Quiet

variable {fs fs' fs'' : List Down}

theorem refl (fs : List Down) : Quiet fs fs := ⟨[], (List.append_nil fs).symm, nofun⟩

/-- Calls that send no `BLAST_COMPLETE` send none together. -/
theorem trans (h : Quiet fs fs') (h' : Quiet fs' fs'') : Quiet fs fs'' := by
  obtain ⟨new, rfl, hnew⟩ := h
  obtain ⟨new', rfl, hnew'⟩ := h'
  refine ⟨new ++ new', List.append_assoc .., fun f hf => ?_⟩
  rcases List.mem_append.mp hf with hf | hf
  · exact hnew f hf
  · exact hnew' f hf

/-- One frame. -/
theorem one (f : Down) (h : ¬ f.IsBlastComplete) : Quiet fs (fs ++ [f]) :=
  ⟨[f], rfl, fun g hg => by rw [List.mem_singleton.mp hg]; exact h⟩

/-- A frame of such a call. -/
theorem not_blastComplete (h : Quiet fs fs') {j : Nat} (hj : fs.length ≤ j) {f : Down}
    (hf : fs'[j]? = some f) : ¬ f.IsBlastComplete := by
  obtain ⟨new, rfl, hnew⟩ := h
  rw [List.getElem?_append_right hj] at hf
  exact hnew f (List.mem_of_getElem? hf)

end Quiet

namespace Manager

section

variable (e : Transfer.Env) (m : Manager) (fs : List Down)

theorem failTransfer_quiet (reason : UInt8) (message : String) (notifyRemote : Bool) :
    Quiet fs (m.failTransfer (managerContext e) fs reason message notifyRemote).2 := by
  rcases m.failTransfer_snd (managerContext e) fs reason message notifyRemote with heq | heq
  · rw [heq]
    exact .refl fs
  · rw [heq]
    exact .one _ (by simp [Transfer.Down.IsBlastComplete])

theorem sendAnnounce_quiet : Quiet fs (m.sendAnnounce (managerContext e) fs).2.1 := by
  have hone (n : UInt32) : Quiet fs (fs ++ [⟨n, .fileTransfer, m.announcePayload⟩]) :=
    .one _ (by simp [Transfer.Down.IsBlastComplete, announcePayload])
  unfold sendAnnounce
  split
  · exact .refl fs
  split
  · exact failTransfer_quiet ..
  dsimp only
  split
  · exact hone _
  · exact hone _
  · exact (hone _).trans (failTransfer_quiet e m.clearNoMemBackoff _ 0x02 "target unreachable" false)
  · exact (hone _).trans
      (failTransfer_quiet e m.clearNoMemBackoff _ 0x03 "failed to send announce" false)

theorem startTransfer_quiet (leafMac : Mac) (fileSize : Nat) (md5 : Octets 16) (action : UInt8)
    (remoteMaxFramePayload : Nat) (fileId : Octets 12) :
    Quiet fs (m.startTransfer (managerContext e) fs leafMac fileSize md5 action
      remoteMaxFramePayload fileId).2.1 := by
  unfold startTransfer
  split_ifs
  · exact .refl fs
  · exact .refl fs
  · exact .refl fs
  · exact .refl fs
  · exact sendAnnounce_quiet ..

theorem onSourceAbort_quiet (reason : UInt8) :
    Quiet fs (m.onSourceAbort (managerContext e) fs reason).2 := by
  unfold onSourceAbort
  split
  · exact failTransfer_quiet ..
  · exact .refl fs

theorem sendEnd_quiet : Quiet fs (m.sendEnd (managerContext e) fs).2 := by
  have hone (n : UInt32) : Quiet fs (fs ++ [⟨n, .fileTransfer, [0x01]⟩]) :=
    .one _ (by simp [Transfer.Down.IsBlastComplete])
  unfold sendEnd
  split
  · exact .refl fs
  split
  · exact failTransfer_quiet ..
  dsimp only
  split
  · exact (hone _).trans (failTransfer_quiet ..)
  · exact hone _
  · exact (hone _).trans (failTransfer_quiet ..)
  · exact (hone _).trans (failTransfer_quiet ..)

theorem handleAccept_quiet (trailing : Bytes) :
    Quiet fs (m.handleAccept (managerContext e) fs trailing).2 := by
  unfold handleAccept
  dsimp only
  split_ifs
  iterate 5 exact failTransfer_quiet ..
  exact .refl fs

theorem handleGapsAck_quiet (trailing : Bytes) :
    Quiet fs (m.handleGapsAck (managerContext e) fs trailing).2 := by
  unfold handleGapsAck
  dsimp only
  split_ifs
  · exact failTransfer_quiet ..
  · exact failTransfer_quiet ..
  · exact sendEnd_quiet ..
  · exact .refl fs
  · exact failTransfer_quiet ..
  · exact .refl fs
  · exact .refl fs

theorem onFileAck_quiet (leafMac : Mac) (ackType result : UInt8) (ref : UInt32) (trailing : Bytes) :
    Quiet fs (m.onFileAck (managerContext e) fs leafMac ackType result ref trailing).1.2 := by
  unfold onFileAck
  split
  · exact .refl fs
  unfold dispatchFileAck
  split
  · split
    · exact .refl fs
    split
    · exact .refl fs
    · exact handleAccept_quiet ..
  split
  · exact failTransfer_quiet ..
  split
  · split
    · exact .refl fs
    split
    · exact .refl fs
    · exact handleGapsAck_quiet ..
  split
  · unfold handleComplete
    split_ifs
    · exact failTransfer_quiet ..
    · exact failTransfer_quiet ..
    · exact .refl fs
    · exact failTransfer_quiet ..
  split
  · exact failTransfer_quiet ..
  · exact .refl fs

/-- The `BLAST_COMPLETE` of a manager is one frame. -/
theorem sendBlastComplete_frames : ∃ f, (m.sendBlastComplete (managerContext e) fs).2.1 = fs ++ [f] := by
  unfold sendBlastComplete
  dsimp only
  split
  · exact ⟨_, rfl⟩
  · exact ⟨_, rfl⟩
  · exact ⟨_, rfl⟩
  · exact ⟨_, rfl⟩

/-- The chunk that is sent is one frame, if any. -/
theorem sendChunk_frames (chunk : QueuedChunk) :
    Quiet fs (m.sendChunk (managerContext e) fs chunk).2.1 ∧
      ((m.sendChunk (managerContext e) fs chunk).2.2 = true →
        (m.sendChunk (managerContext e) fs chunk).2.1 = fs ++
          [⟨(e.frameSent fs.length).2, .fileData, chunkPayload chunk.sequence chunk.data⟩] ∧
        (e.frameSent fs.length).1 = .ok) := by
  have hone (n : UInt32) :
      Quiet fs (fs ++ [⟨n, .fileData, chunkPayload chunk.sequence chunk.data⟩]) :=
    .one _ (by simp [Transfer.Down.IsBlastComplete])
  unfold sendChunk
  dsimp only
  split
  · exact ⟨failTransfer_quiet .., nofun⟩
  · split
    · exact ⟨hone _, nofun⟩
    next hok => exact ⟨hone _, fun _ => ⟨rfl, hok⟩⟩
    · exact ⟨hone _, nofun⟩

/-- A call after which nothing of the round is left to send, or there is no transfer. -/
def Drains (m m' : Manager) : Prop :=
  m'.state = .idle ∨ (m'.state = .blasting ∨ m'.state = .waitingGaps) ∧ m'.line.asked = ∅ ∧
    m'.line.queued = [] ∧ m'.board.target = m.board.target

/-- What a call sends before its `BLAST_COMPLETE`: nothing, as all has been sent, or the last chunk
that waits. -/
structure Blasts (m m' : Manager) (fs fs' : List Down) : Prop where
  all : m.tracker.requestedSequences = ∅
  before : m.pendingChunks = [] ∧ (∃ f, fs' = fs ++ [f]) ∨
    ∃ chunk n f, m.pendingChunks = [chunk] ∧ (e.frameSent fs.length).1 = .ok ∧
      fs' = fs ++ [⟨n, .fileData, chunkPayload chunk.sequence chunk.data⟩, f]
  after : Drains m m'

/-- Closing a round sends one frame, and the round is empty then. -/
theorem closeBlast_drains (hs : m.state = .blasting) (hall : m.tracker.requestedSequences = ∅)
    (hqueued : m.pendingChunks = []) :
    (∃ f, (m.closeBlast (managerContext e) fs).2 = fs ++ [f]) ∧
      Drains m (m.closeBlast (managerContext e) fs).1 := by
  have hframe := m.sendBlastComplete_frames e fs
  have hline : m.board.line.queued = [] := by
    change m.pendingChunks.map _ = []
    rw [hqueued]
    rfl
  have hboard := m.board_sendBlastComplete (managerContext e) fs
  unfold closeBlast
  dsimp only
  split_ifs with hok
  · have hsame := hboard.resolve_right fun hidle => by rw [hidle.2] at hok; cases hok
    refine ⟨hframe, .inr ⟨.inr rfl, ?_, ?_, (congrArg Board.target hsame).trans rfl⟩⟩
    · exact (congrArg (fun b => b.line.asked) hsame).trans hall
    · exact (congrArg (fun b => b.line.queued) hsame).trans hline
  · refine ⟨hframe, ?_⟩
    rcases hboard with hsame | ⟨hidle, -⟩
    · refine .inr ⟨.inl ((congrArg Board.state hsame).trans hs), ?_, ?_, congrArg Board.target hsame⟩
      · exact (congrArg (fun b => b.line.asked) hsame).trans hall
      · exact (congrArg (fun b => b.line.queued) hsame).trans hline
    · exact .inl (congrArg Board.state hidle)

/-- Serving the queue sends no `BLAST_COMPLETE`, or sends it last, after the chunks. -/
theorem pumpQueuedChunks_frames :
    Quiet fs (m.pumpQueuedChunks (managerContext e) fs).2 ∨
      (m.tracker.sentSequences ≠ ∅ ∨ m.pendingChunks ≠ []) ∧
        Blasts e m (m.pumpQueuedChunks (managerContext e) fs).1 fs
          (m.pumpQueuedChunks (managerContext e) fs).2 := by
  unfold pumpQueuedChunks
  dsimp only
  split
  · exact .inl (.refl fs)
  next hheld =>
  have hs : m.state = .blasting := not_not.mp (not_or.mp hheld).1
  split
  next hqueued =>
    split_ifs with hdone
    · obtain ⟨hframe, hafter⟩ := m.closeBlast_drains e fs hs hdone.1 hqueued
      exact .inr ⟨.inl hdone.2, hdone.1, .inl ⟨hqueued, hframe⟩, hafter⟩
    · exact .inl (.refl fs)
  next chunk rest hqueued =>
    obtain ⟨hquiet, hsent⟩ := m.sendChunk_frames e fs chunk
    have hboard := m.board_sendChunk (managerContext e) fs chunk
    obtain ⟨m', fs', sent, hsend⟩ : ∃ m' fs' sent,
        m.sendChunk (managerContext e) fs chunk = (m', fs', sent) := ⟨_, _, _, rfl⟩
    rw [hsend] at hquiet hsent hboard ⊢
    cases sent with
    | false => exact .inl hquiet
    | true =>
      obtain ⟨hframe, hok⟩ := hsent rfl
      have hboard' : m'.board = m.board := hboard rfl
      simp only [Bool.not_true, Bool.false_eq_true, if_false]
      split_ifs with hlast
      · obtain ⟨rfl, hall⟩ := hlast
        have hstate : (m'.popChunk chunk.sequence []).state = .blasting :=
          (congrArg Board.state hboard').trans hs
        obtain ⟨⟨f, hf⟩, hafter⟩ := (m'.popChunk chunk.sequence []).closeBlast_drains e fs' hstate hall rfl
        have hdrains : Drains m ((m'.popChunk chunk.sequence []).closeBlast (managerContext e) fs').1 := by
          rw [Drains, ← hboard']
          exact hafter
        refine .inr ⟨.inr (by rw [hqueued]; exact List.cons_ne_nil _ _), ?_, .inr ?_, hdrains⟩
        · exact (congrArg (fun b => b.line.asked) hboard').symm.trans hall
        · refine ⟨chunk, (e.frameSent fs.length).2, f, hqueued, hok, ?_⟩
          rw [hf]
          dsimp only at hframe
          rw [hframe, List.append_assoc]
          rfl
      · exact .inl hquiet

/-- What a turn of the loop sends: no `BLAST_COMPLETE`, one while it waits for the gaps, or one when
all chunks of the round have been sent. -/
theorem loop_frames :
    Quiet fs (m.loop (managerContext e) fs).2 ∨
      m.state = .waitingGaps ∧ ((m.loop (managerContext e) fs).1.board = m.board ∨
        (m.loop (managerContext e) fs).1.board = .idle) ∨
      m.state = .blasting ∧
        Blasts e m (m.loop (managerContext e) fs).1 fs (m.loop (managerContext e) fs).2 := by
  unfold loop
  split
  · exact .inl (.refl fs)
  split
  · exact .inl (failTransfer_quiet ..)
  split
  · exact .inl (failTransfer_quiet ..)
  split
  · exact .inl (.refl fs)
  split
  · exact .inl (failTransfer_quiet ..)
  unfold advance
  split
  · split_ifs
    · exact .inl (sendAnnounce_quiet ..)
    · exact .inl (.refl fs)
  · next hs =>
    have hpump := (m.pumpBlasting (managerContext e)).pumpQueuedChunks_frames e fs
    by_cases hempty : m.tracker.requestedSequences = ∅ ∧ m.tracker.sentSequences = ∅ ∧
        m.pendingChunks = []
    · -- a round without chunks is asked for again, and nothing has been sent for it
      refine .inl (hpump.resolve_right fun hblast => ?_)
      have hsent : (m.pumpBlasting (managerContext e)).tracker.sentSequences = ∅ := by
        unfold pumpBlasting
        split_ifs
        · exact hempty.2.1
        · rfl
      have hpending : (m.pumpBlasting (managerContext e)).pendingChunks = [] := by
        unfold pumpBlasting
        split_ifs
        · exact hempty.2.2
        · exact hempty.2.2
      exact hblast.1.elim (fun h => h hsent) fun h => h hpending
    · have hsame : m.pumpBlasting (managerContext e) = m := by
        unfold pumpBlasting
        rw [if_neg hempty, ite_self]
      rw [hsame] at hpump ⊢
      exact hpump.imp_right fun hblast => .inr ⟨hs, hblast.2⟩
  · next hs =>
    split_ifs
    · exact .inl (failTransfer_quiet ..)
    · refine .inr (.inl ⟨hs, ?_⟩)
      exact (m.board_sendBlastComplete (managerContext e) fs).imp_right And.left
    · exact .inl (.refl fs)
  · split_ifs
    · exact .inl (sendEnd_quiet ..)
    · exact .inl (.refl fs)
  · exact .inl (.refl fs)
  · exact .inl (.refl fs)

end

end Manager

end OtaManager

namespace Rounds

open OtaManager

/-- Before frame number `j` the call hands chunk `n` to the radio, which takes it. -/
def SentBefore (s : State) (event : Event) (j n : Nat) : Prop :=
  ∃ e, event = .loop e ∧ ∃ i < j, s.frames.length ≤ i ∧ (e.frameSent i).1 = .ok ∧
    ∃ tx data, (step s event).frames[i]? = some ⟨tx, .fileData, Manager.chunkPayload n data⟩

/-- Frame number `j`, which the call adds, is a `BLAST_COMPLETE`. -/
def SendsBlastComplete (s : State) (event : Event) (j : Nat) : Prop :=
  s.frames.length ≤ j ∧ ∃ f, (step s event).frames[j]? = some f ∧ f.IsBlastComplete

/-- Only a turn of the loop sends a `BLAST_COMPLETE`. -/
theorem SendsBlastComplete.loop {s : State} {event : Event} {j : Nat}
    (h : SendsBlastComplete s event j) : ∃ e, event = .loop e := by
  obtain ⟨hj, f, hf, hblast⟩ := h
  cases event with
  | loop e => exact ⟨e, rfl⟩
  | start =>
    exact absurd hblast ((Manager.startTransfer_quiet ..).not_blastComplete hj hf)
  | sourceChunk =>
    exact absurd hblast ((Quiet.refl s.frames).not_blastComplete hj hf)
  | sourceAbort =>
    exact absurd hblast ((Manager.onSourceAbort_quiet ..).not_blastComplete hj hf)
  | fileAck =>
    exact absurd hblast ((Manager.onFileAck_quiet ..).not_blastComplete hj hf)

/-- When `BLAST_COMPLETE` is sent, all of the target was sent before. -/
theorem Inv.sent {s : State} (h : Inv s) {event : Event} {j : Nat} (hblast : SendsBlastComplete s event j) :
    (∀ n ∈ s.target, n ∈ s.manager.tracker.sentSequences ∨ SentBefore s event j n) ∧
      ((Rounds.step s event).manager.state ≠ .idle →
        s.target ⊆ (Rounds.step s event).manager.tracker.sentSequences) := by
  obtain ⟨e, rfl⟩ := hblast.loop
  obtain ⟨hj, f, hf, hcomplete⟩ := hblast
  have hnext := h.step (.loop e)
  rw [← h.target_eq]
  rcases s.manager.loop_frames e s.frames with hquiet | ⟨hs, hboard⟩ | ⟨hs, hall, hbefore, hafter⟩
  · exact absurd hcomplete (hquiet.not_blastComplete hj hf)
  · -- it has been sent before, and is sent again
    obtain ⟨-, -, hdone⟩ := h.round.waiting hs
    refine ⟨fun n hn => .inl ?_, fun hbusy => ?_⟩
    · change n ∈ s.manager.board.line.done
      rw [hdone]
      exact hn
    · have hsame := hboard.resolve_right fun hidle => hbusy (congrArg Board.state hidle)
      change _ ⊆ ((s.manager.loop (managerContext e) s.frames).1.board).line.done
      rw [hsame, hdone]
  · have hsplits := h.round.blasting hs
    refine ⟨fun n hn => ?_, fun hbusy => ?_⟩
    · rcases (hsplits.mem_iff n).mp hn with hasked | hqueued | hdone
      · change n ∈ s.manager.tracker.requestedSequences at hasked
        rw [hall] at hasked
        exact absurd hasked (Finset.notMem_empty n)
      · change n ∈ s.manager.pendingChunks.map _ at hqueued
        rcases hbefore with ⟨hnone, -⟩ | ⟨chunk, tx, g, hone, hok, hframes⟩
        · rw [hnone] at hqueued
          cases hqueued
        · -- the last chunk goes out in this very call
          rw [hone, List.map_singleton, List.mem_singleton] at hqueued
          have hchunk : (Rounds.step s (.loop e)).frames[s.frames.length]? =
              some ⟨tx, .fileData, Manager.chunkPayload n chunk.data⟩ := by
            change (s.manager.loop (managerContext e) s.frames).2[s.frames.length]? = _
            rw [hframes, List.getElem?_append_right (Nat.le_refl _), Nat.sub_self, hqueued]
            rfl
          have hlt : s.frames.length < j := by
            refine Nat.lt_of_le_of_ne hj fun heq => ?_
            rw [← heq, hchunk] at hf
            rw [← Option.some.inj hf] at hcomplete
            cases hcomplete.1
          exact .inr ⟨e, rfl, _, hlt, Nat.le_refl _, hok, tx, chunk.data, hchunk⟩
      · exact .inl hdone
    · obtain ⟨hs', hasked, hqueued, htarget⟩ := hafter.resolve_left hbusy
      have hdone : (Rounds.step s (.loop e)).manager.board.line.done =
          (Rounds.step s (.loop e)).manager.board.target := by
        rcases hs' with hs' | hs'
        · exact (hnext.round.blasting hs').done_eq hasked hqueued
        · exact (hnext.round.waiting hs').2.2
      rw [← htarget]
      exact hdone.ge

/-- In every reachable state of a blasting manager, the chunks that it has asked for, those that wait
and those that it has sent are pairwise disjoint and make up the target of the round.  Whenever a call
sends `BLAST_COMPLETE`, all of the target has been sent: in an earlier call or in this one, and the
manager has it in its set unless the call has ended the transfer. -/
theorem blast_rounds {s : State} (hs : Reachable s) :
    (s.manager.state = .blasting → s.manager.line.Splits s.target) ∧
      ∀ event j, SendsBlastComplete s event j →
        (∀ n ∈ s.target, n ∈ s.manager.tracker.sentSequences ∨ SentBefore s event j n) ∧
        ((step s event).manager.state ≠ .idle →
          s.target ⊆ (step s event).manager.tracker.sentSequences) := by
  have hinv : Inv s := hs.invariant (fun _ => Inv.initial) fun _ event h _ => h.step event
  refine ⟨fun hb => ?_, fun event j hblast => hinv.sent hblast⟩
  rw [← hinv.target_eq]
  exact hinv.round.blasting hb

/-- A moment, with a radio that takes every frame and numbers them. -/
def moment (now : UInt32) : Transfer.Env where
  now
  ackSent _ := true
  frameSent n := (.ok, UInt32.ofNat (n + 1))
  targetReachable := true

/-- A file of two chunks, to the moment when the second one waits in the queue. -/
def twoChunks : State :=
  Transition.runFrom step { manager := {} }
    [.start (moment 10) (Octets.zero 6) 128 (Octets.zero 16) 0x01 250 (Octets.zero 12),
      .fileAck (moment 20) (Octets.zero 6) PacketType.fileTransfer.code 0x00 1 [64, 0, 8, 0x01],
      .sourceChunk 0 (List.replicate 64 0), .loop (moment 30), .sourceChunk 1 (List.replicate 64 0)]

/-- Both are in the target, and the next turn of the loop sends `BLAST_COMPLETE` right after the second
one. -/
theorem blast_rounds_twoChunks :
    twoChunks.target = {0, 1} ∧ twoChunks.manager.line.Splits twoChunks.target ∧
      SendsBlastComplete twoChunks (.loop (moment 40)) 3 ∧
      ∀ n ∈ twoChunks.target, n ∈ twoChunks.manager.tracker.sentSequences ∨
        SentBefore twoChunks (.loop (moment 40)) 3 n := by
  have hreachable : Reachable twoChunks :=
    (Transition.Reachable.start ⟨{}, rfl⟩).runFrom ⟨trivial, trivial, trivial, trivial, trivial, trivial⟩
  have hblast : SendsBlastComplete twoChunks (.loop (moment 40)) 3 :=
    ⟨by decide +kernel, _, by rfl, by decide +kernel⟩
  have hrounds := blast_rounds hreachable
  exact ⟨by decide +kernel, hrounds.1 (by decide +kernel), hblast, (hrounds.2 _ _ hblast).1⟩

end Rounds

end EspTree
