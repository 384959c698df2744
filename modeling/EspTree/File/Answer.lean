import EspTree.File.Runs
import EspTree.File.Buffer

/-!
# Answering `BLAST_COMPLETE`

The bridge repeats its `BLAST_COMPLETE` until it has a `GAPS` acknowledgement, so the
receiver has to answer every copy, and each in the same way.  In `RECEIVING` it does, as
long as its acknowledgements can be sent and the increment is an earlier one, or its
retransmission rounds last.  It does not in the states that the increment's own completion
leads to: `WRITING`, where it stays when the acknowledgement before the write could not be
sent, and `WAITING_END`, where it goes with the last increment.  And what it could not send
it does not send again: `loop` repeats no `GAPS`.

The history variable of a run holds the chunks that the receiver has marked, by increment
and position, until the transfer ends.
-/

namespace EspTree

open Wire

namespace FileReceiver

variable {η : Type}

/-! ## Acknowledgements -/

/-- The bitmap of a `GAPS` acknowledgement, which follows the header, the counter and the
length. -/
def gapsBitmap? (ack : Bytes) : Option Bytes :=
  if ack.getD 1 0 == ackGaps then some (ack.drop 8) else none

/-- A `GAPS` is attempted once, and whether it has gone out is for the environment to say. -/
theorem sendGapsAck_eq (H : ActionHandler η) (e : Env) (r : Receiver η) (acks : List Bytes)
    (bitmap : Bytes) :
    ∃ ack, r.sendGapsAck (context H e) acks bitmap = (acks ++ [ack], e.ackSent acks.length) ∧
      gapsBitmap? ack = some bitmap := by
  refine ⟨_, rfl, ?_⟩
  rw [← List.append_assoc, gapsBitmap?, if_pos (by simp)]
  exact congrArg some (List.drop_left' (by simp))

/-- Only `GAPS` acknowledgements carry a bitmap. -/
theorem gapsBitmap?_sendAck (H : ActionHandler η) (e : Env) (r : Receiver η) (acks : List Bytes)
    {result : UInt8} (hne : result ≠ ackGaps) (trailing : Bytes) :
    ∃ ack, (r.sendAck (context H e) acks result trailing).1 = acks ++ [ack] ∧
      gapsBitmap? ack = none :=
  ⟨_, rfl, by simp [gapsBitmap?, hne]⟩

/-! ## Collecting an increment -/

/-- The receiver is collecting its current increment. -/
structure Collecting (r : Receiver η) : Prop where
  off : r.inCompletePhase = false
  active : ∃ a h, r.activeHandler = some a ∧ r.handlers a = some h
  chunk_pos : 0 < r.chunkPayloadSize
  geometry : r.geometry = Geometry.ofTransfer r.fileSize r.chunkPayloadSize r.bufferSizeKb
  more : r.currentIncrement < r.geometry.totalIncrements
  unwritten : r.incrementWritten = false
  round_le : r.retransmitRound ≤ Receiver.maxRetransmitRounds
  counted : r.incrementBuf.Counted (r.geometry.chunksInIncrement r.currentIncrement)
  data_length : r.incrementBuf.data.length =
    r.geometry.chunksInIncrement r.currentIncrement * r.chunkPayloadSize

namespace Collecting

variable {r : Receiver η}

/-- An increment of the file has a chunk, and their number fits its field. -/
theorem chunks_bounds (h : Collecting r) (k : Nat) :
    0 < r.geometry.chunksInIncrement k ∧ r.geometry.chunksInIncrement k < 2 ^ 16 := by
  have hcpi := Geometry.cpi_bounds r.fileSize r.chunkPayloadSize r.bufferSizeKb
  rw [← h.geometry] at hcpi
  unfold Geometry.chunksInIncrement
  split
  · have hlast : r.geometry.chunksInLastIncrement =
        Geometry.truncOr r.geometry.chunksPerIncrement (Geometry.sub32 r.geometry.totalChunks
          ((r.geometry.totalIncrements - 1) * r.geometry.chunksPerIncrement)) := by
      rw [h.geometry]
      rfl
    rw [hlast, Geometry.truncOr]
    split <;> omega
  · exact hcpi

theorem increments_lt (h : Collecting r) : r.geometry.totalIncrements < 2 ^ 16 := by
  rw [h.geometry]
  exact Geometry.totalIncrements_lt _ _ _

/-- A sequence number of the current increment has its position below the chunk count. -/
theorem position_lt (h : Collecting r) {s : Nat}
    (hle : r.currentIncrement * r.geometry.chunksPerIncrement ≤ s)
    (hlt : s < r.currentIncrement * r.geometry.chunksPerIncrement +
      r.geometry.chunksInIncrement r.currentIncrement) :
    s % r.geometry.chunksPerIncrement % 2 ^ 16 <
      r.geometry.chunksInIncrement r.currentIncrement := by
  have hcpi := Geometry.cpi_bounds r.fileSize r.chunkPayloadSize r.bufferSizeKb
  rw [← h.geometry] at hcpi
  have hmod := Nat.mod_lt s hcpi.1
  rw [Nat.mod_eq_of_lt (by omega)]
  by_cases hn : r.geometry.chunksInIncrement r.currentIncrement ≤ r.geometry.chunksPerIncrement
  · obtain ⟨d, rfl⟩ := Nat.exists_eq_add_of_le hle
    rw [Nat.mul_comm, Nat.mul_add_mod, Nat.mod_eq_of_lt (by omega)]
    omega
  · omega

/-- A receiver that collects has a handler. -/
theorem active? (h : Collecting r) : ∃ a h, r.activeHandler = some a ∧ r.active? = some h := by
  obtain ⟨a, h, ha, hh⟩ := h.active
  exact ⟨a, h, ha, by simp [Receiver.active?, ha, hh]⟩

theorem data_ne_nil (h : Collecting r) : r.incrementBuf.data.isEmpty = false := by
  have hpos : 0 < r.incrementBuf.data.length := by
    rw [h.data_length]
    exact Nat.mul_pos (h.chunks_bounds _).1 h.chunk_pos
  simpa [List.isEmpty_iff] using List.ne_nil_of_length_pos hpos

/-- The receiver that goes on to the next increment. -/
theorem next {a : UInt8} (h : Collecting r) (h' : η) (ha : r.activeHandler = some a)
    (hmore : r.currentIncrement + 1 < r.geometry.totalIncrements) :
    Collecting { r.setHandler a h' with
      currentIncrement := r.currentIncrement + 1
      retransmitRound := 0
      incrementWritten := false
      incrementBuf := IncrementBuffer.reset
        (r.geometry.chunksInIncrement (r.currentIncrement + 1))
        (r.geometry.chunksInIncrement (r.currentIncrement + 1) * r.chunkPayloadSize)
      state := .receiving } where
  off := h.off
  active := ⟨a, h', ha, by simp [Receiver.setHandler]⟩
  chunk_pos := h.chunk_pos
  geometry := h.geometry
  more := hmore
  unwritten := rfl
  round_le := Nat.zero_le _
  counted := .reset _ _
  data_length := by simp [IncrementBuffer.reset, Receiver.setHandler]

end Collecting

/-- `reset_` was called. -/
def Ended (r : Receiver η) : Prop := r.state = .idle ∧ r.inCompletePhase = false

/-! ## One `BLAST_COMPLETE` -/

/-- The handler takes the current increment, at the first or at the second attempt. -/
def TakesIncrement (H : ActionHandler η) (r : Receiver η) : Prop :=
  ∃ h, r.active? = some h ∧
    let n := r.geometry.chunksInIncrement r.currentIncrement
    let slices := r.incrementSlices n n 0
    (flashPass H h slices).2 = true ∨ (flashPass H (flashPass H h slices).1 slices).2 = true

/-- What a collecting receiver does with a `BLAST_COMPLETE` for increment `k`: the new state,
and the bitmaps of the acknowledgements.  `sent` is the outcome of the first of them. -/
inductive BlastAnswer (H : ActionHandler η) (sent : Bool) (r : Receiver η) (k : Nat) :
    Receiver η → List (Option Bytes) → Prop
  | earlier (hk : k < r.currentIncrement) : BlastAnswer H sent r k r [some []]
  | gaps (hk : k = r.currentIncrement) (hc : r.incrementBuf.isComplete = false)
      (hround : r.retransmitRound < Receiver.maxRetransmitRounds) :
      BlastAnswer H sent r k
        { r with retransmitRound := r.retransmitRound + 1, state := .receiving }
        [some r.incrementBuf.receivedBitmap]
  | exhausted {r' : Receiver η} (hk : k = r.currentIncrement)
      (hc : r.incrementBuf.isComplete = false)
      (hround : Receiver.maxRetransmitRounds ≤ r.retransmitRound) (hended : Ended r') :
      BlastAnswer H sent r k r' [none]
  | unsent (hk : k = r.currentIncrement) (hc : r.incrementBuf.isComplete = true)
      (hs : sent = false) : BlastAnswer H sent r k { r with state := .writing } [some []]
  | last {a : UInt8} {h : η} (hk : k = r.currentIncrement)
      (hc : r.incrementBuf.isComplete = true) (hs : sent = true) (ht : TakesIncrement H r)
      (hlast : r.geometry.totalIncrements ≤ r.currentIncrement + 1) :
      BlastAnswer H sent r k
        { r.setHandler a h with state := .waitingEnd, incrementWritten := true }
        [some [], some []]
  | next {a : UInt8} {h : η} (hk : k = r.currentIncrement)
      (hc : r.incrementBuf.isComplete = true) (hs : sent = true) (ht : TakesIncrement H r)
      (hmore : r.currentIncrement + 1 < r.geometry.totalIncrements)
      (ha : r.activeHandler = some a) :
      BlastAnswer H sent r k
        { r.setHandler a h with
          currentIncrement := r.currentIncrement + 1
          retransmitRound := 0
          incrementWritten := false
          incrementBuf := IncrementBuffer.reset
            (r.geometry.chunksInIncrement (r.currentIncrement + 1))
            (r.geometry.chunksInIncrement (r.currentIncrement + 1) * r.chunkPayloadSize)
          state := .receiving }
        [some [], some []]
  | refused {r' : Receiver η} (hk : k = r.currentIncrement)
      (hc : r.incrementBuf.isComplete = true) (hs : sent = true) (ht : ¬ TakesIncrement H r)
      (hended : Ended r') : BlastAnswer H sent r k r' [some [], none]

section Blast

variable (H : ActionHandler η) (e : Env)

/-- The last increment was flashed. -/
theorem finishIncrement_last {r : Receiver η} (acks : List Bytes)
    (hlast : r.geometry.totalIncrements ≤ r.currentIncrement + 1) :
    ∃ ack ok, gapsBitmap? ack = some [] ∧ r.finishIncrement (context H e) acks =
      ({ r with state := .waitingEnd, incrementWritten := true }, acks ++ [ack], ok) := by
  obtain ⟨ack, hack, hb⟩ := sendGapsAck_eq H e
    { r with incrementWritten := true, state := .waitingEnd } acks []
  refine ⟨ack, e.ackSent acks.length, hb, ?_⟩
  rw [Receiver.finishIncrement, if_pos hlast]
  dsimp -iota -proj only
  rw [hack]

/-- Another increment was flashed. -/
theorem finishIncrement_next {r : Receiver η} (acks : List Bytes)
    (hmore : r.currentIncrement + 1 < r.geometry.totalIncrements)
    (hlt : r.currentIncrement + 1 < 2 ^ 16) :
    ∃ ack ok, gapsBitmap? ack = some [] ∧ r.finishIncrement (context H e) acks =
      ({ r with
          currentIncrement := r.currentIncrement + 1
          retransmitRound := 0
          incrementWritten := false
          incrementBuf := IncrementBuffer.reset
            (r.geometry.chunksInIncrement (r.currentIncrement + 1))
            (r.geometry.chunksInIncrement (r.currentIncrement + 1) * r.chunkPayloadSize)
          state := .receiving }, acks ++ [ack], ok) := by
  obtain ⟨ack, hack, hb⟩ := sendGapsAck_eq H e { r with incrementWritten := true } acks []
  refine ⟨ack, e.ackSent acks.length, hb, ?_⟩
  rw [Receiver.finishIncrement, if_neg (by simpa using hmore)]
  dsimp -iota -proj only
  rw [hack, Nat.mod_eq_of_lt hlt]

/-- An abort that notifies the sender sends an `ABORT` acknowledgement. -/
theorem abort_eq (r : Receiver η) (acks : List Bytes) (reason : UInt8) :
    ∃ r' ack, Ended r' ∧ gapsBitmap? ack = none ∧
      r.abort (context H e) acks reason true = (r', acks ++ [ack]) := by
  obtain ⟨ack, hack, hb⟩ := gapsBitmap?_sendAck H e (r.notifyAbort (context H e) reason) acks
    (show ackAbort ≠ ackGaps by decide) [reason]
  exact ⟨_, ack, ⟨rfl, rfl⟩, hb, Prod.ext rfl hack⟩

/-- What is handed over of an increment depends on its buffer and its place in the file only. -/
theorem incrementSlices_congr (r : Receiver η) (state : State) (now : UInt32)
    (numChunks remaining i : Nat) :
    ({ r with state, lastActivityMs := now } : Receiver η).incrementSlices numChunks remaining i =
      r.incrementSlices numChunks remaining i := by
  induction remaining generalizing i with
  | zero => rfl
  | succ remaining ih =>
    simp only [Receiver.incrementSlices, ih]
    rfl

theorem takesIncrement_touch (r : Receiver η) (now : UInt32) :
    TakesIncrement H { r with lastActivityMs := now } ↔ TakesIncrement H r := by
  unfold TakesIncrement
  dsimp only
  rw [show ({ r with lastActivityMs := now } : Receiver η) =
    { r with state := r.state, lastActivityMs := now } from rfl]
  simp only [incrementSlices_congr]
  rfl

/-- `write_increment_to_flash_`, up to what the handler says. -/
theorem writeIncrementToFlash_eq {r : Receiver η} (hr : Collecting r) (acks : List Bytes) :
    (∃ a h, r.activeHandler = some a ∧ TakesIncrement H r ∧
      ({ r with state := .writing } : Receiver η).writeIncrementToFlash (context H e) acks =
        (({ r with state := .writing } : Receiver η).setHandler a h).finishIncrement
          (context H e) acks) ∨
    (¬ TakesIncrement H r ∧ ∃ r' ack, Ended r' ∧ gapsBitmap? ack = none ∧
      ({ r with state := .writing } : Receiver η).writeIncrementToFlash (context H e) acks =
        (r', acks ++ [ack], false)) := by
  obtain ⟨a, h, ha, hact⟩ := hr.active?
  generalize hw : ({ r with state := .writing } : Receiver η) = w
  have hwa : w.activeHandler = some a := by rw [← hw, ha]
  have hwact : w.active? = some h := by rw [← hw]; exact hact
  have hwd : w.incrementBuf.data.isEmpty = false := by rw [← hw]; exact hr.data_ne_nil
  have hws : w.incrementSlices (w.geometry.chunksInIncrement w.currentIncrement)
      (w.geometry.chunksInIncrement w.currentIncrement) 0 =
      r.incrementSlices (r.geometry.chunksInIncrement r.currentIncrement)
        (r.geometry.chunksInIncrement r.currentIncrement) 0 := by
    rw [← hw]
    exact incrementSlices_congr r .writing r.lastActivityMs _ _ 0
  unfold Receiver.writeIncrementToFlash
  rw [hwa, hwact]
  dsimp only
  rw [if_neg (by simp [hwd]), hws]
  generalize hsl : r.incrementSlices _ _ 0 = slices
  split_ifs with hfirst hsecond
  · exact .inl ⟨a, _, ha, ⟨h, hact, .inl (hsl ▸ hfirst)⟩, rfl⟩
  · exact .inl ⟨a, _, ha, ⟨h, hact, .inr (hsl ▸ hsecond)⟩, rfl⟩
  · refine .inr ⟨?_, ?_⟩
    · rintro ⟨h', hact', ht⟩
      obtain rfl : h = h' := by simpa [hact] using hact'
      rcases ht with ht | ht
      · exact hfirst (hsl ▸ ht)
      · exact hsecond (hsl ▸ ht)
    · obtain ⟨r', ack, hidle, hb, hack⟩ := abort_eq H e (w.setHandler a
        (flashPass H (flashPass H h slices).1 slices).1) acks abortFlashError
      exact ⟨r', ack, hidle, hb, congrArg (fun q => (q.1, q.2, false)) hack⟩

/-- What `handle_blast_complete_` does while an increment is collected. -/
theorem handleBlastComplete_answer {r : Receiver η} (hr : Collecting r)
    (hstate : r.state = .receiving) (acks : List Bytes) {k : Nat} (hk : k ≤ r.currentIncrement) :
    ∃ r' new ok, r.handleBlastComplete (context H e) acks k = (r', acks ++ new, ok) ∧
      BlastAnswer H (e.ackSent acks.length) { r with lastActivityMs := e.now } k r'
        (new.map gapsBitmap?) := by
  have hactive : r.active?.isNone = false := by
    obtain ⟨a, h, -, hact⟩ := hr.active?
    simp [hact]
  unfold Receiver.handleBlastComplete
  rw [if_neg (by simp [hstate, hactive]), show (context H e).now = e.now from rfl]
  have hr' : Collecting { r with lastActivityMs := e.now } := { hr with }
  generalize ht : ({ r with lastActivityMs := e.now } : Receiver η) = t at hr' ⊢
  have hcur : t.currentIncrement = r.currentIncrement := by rw [← ht]
  dsimp -iota -proj only
  rw [if_neg (by omega)]
  by_cases hlt : k < t.currentIncrement
  · obtain ⟨ack, hack, hb⟩ := sendGapsAck_eq H e t acks []
    rw [if_pos (.inl hlt), hack]
    exact ⟨t, [ack], _, rfl, by simpa [hb] using .earlier hlt⟩
  have hke : k = t.currentIncrement := by omega
  rw [if_neg (by simp [hlt, hr'.unwritten])]
  by_cases hc : t.incrementBuf.isComplete = true
  · rw [if_pos hc]
    obtain ⟨ack, hack, hb⟩ := sendGapsAck_eq H e { t with state := .writing } acks []
    rw [hack]
    dsimp only
    by_cases hs : e.ackSent acks.length = true
    · rw [if_pos hs]
      rcases writeIncrementToFlash_eq H e hr' (acks ++ [ack]) with
        ⟨a, h, ha, htakes, heq⟩ | ⟨hrefused, r', ack', hidle, hb', heq⟩
      · rw [heq]
        by_cases hlast : t.geometry.totalIncrements ≤ t.currentIncrement + 1
        · obtain ⟨ack', ok, hb', hfin⟩ := finishIncrement_last H e
            (r := ({ t with state := .writing } : Receiver η).setHandler a h) (acks ++ [ack]) hlast
          refine ⟨_, [ack, ack'], ok, by rw [hfin, List.append_assoc]; rfl, ?_⟩
          simpa [hb, hb'] using .last (h := h) (a := a) hke hc hs htakes hlast
        · have hlt := hr'.increments_lt
          obtain ⟨ack', ok, hb', hfin⟩ := finishIncrement_next H e
            (r := ({ t with state := .writing } : Receiver η).setHandler a h) (acks ++ [ack])
            (Nat.not_le.mp hlast) (by change t.currentIncrement + 1 < _; omega)
          refine ⟨_, [ack, ack'], ok, by rw [hfin, List.append_assoc]; rfl, ?_⟩
          simpa [hb, hb'] using .next (h := h) hke hc hs htakes (by omega) ha
      · rw [heq]
        refine ⟨r', [ack, ack'], false, by rw [List.append_assoc]; rfl, ?_⟩
        simpa [hb, hb'] using .refused hke hc hs hrefused hidle
    · rw [if_neg hs]
      refine ⟨_, [ack], false, rfl, ?_⟩
      simpa [hb] using .unsent hke hc (by simpa using hs)
  · rw [if_neg hc]
    have hc' : t.incrementBuf.isComplete = false := by simpa using hc
    split
    · next hround =>
      obtain ⟨r', ack, hidle, hb, hack⟩ := abort_eq H e t acks abortTimeout
      rw [hack]
      exact ⟨r', [ack], true, rfl, by simpa [hb] using .exhausted hke hc' hround hidle⟩
    · next hround =>
      have hwrap : (t.retransmitRound + 1) % 2 ^ 8 = t.retransmitRound + 1 := by
        simp only [Receiver.maxRetransmitRounds] at hround
        omega
      obtain ⟨ack, hack, hb⟩ := sendGapsAck_eq H e
        { t with retransmitRound := (t.retransmitRound + 1) % 2 ^ 8 } acks
        t.incrementBuf.receivedBitmap
      rw [hack, hwrap]
      refine ⟨_, [ack], e.ackSent acks.length, rfl, ?_⟩
      simpa [hb] using .gaps hke hc' (by omega)

end Blast

/-! ## What a call does to the increment -/

/-- What one call can do to the increment that is being collected. -/
inductive Turn (H : ActionHandler η) (r r' : Receiver η) : Prop
  /-- Nothing. -/
  | same (hstate : r'.state = r.state) (hoff : r'.inCompletePhase = r.inCompletePhase)
      (hcur : r'.currentIncrement = r.currentIncrement) (hgeo : r'.geometry = r.geometry)
      (hbuf : r'.incrementBuf = r.incrementBuf) (hc : Collecting r → Collecting r')
  /-- The receiver is not collecting afterwards. -/
  | away (hstate : r'.state ≠ .receiving)
      (hoff : r'.state = .idle → Ended r' ∨ r.state = .idle ∧ r'.inCompletePhase = r.inCompletePhase)
  /-- A transfer begins. -/
  | begun (hidle : r.state = .idle) (hstate : r'.state = .receiving)
      (hzero : r'.currentIncrement = 0) (hc : r.inCompletePhase = false → Collecting r')
  /-- A chunk of the increment is stored. -/
  | stored {i : Nat} (hstate : r.state = .receiving) (hstate' : r'.state = .receiving)
      (hcur : r'.currentIncrement = r.currentIncrement) (hgeo : r'.geometry = r.geometry)
      (hbits : Collecting r → i < r.geometry.chunksInIncrement r.currentIncrement ∧
        ∀ j, r'.incrementBuf.isChunkReceived j =
          (decide (i = j) || r.incrementBuf.isChunkReceived j))
      (hc : Collecting r → Collecting r')
  /-- The gaps of the increment are asked for. -/
  | asked {sent : Bool} {k : Nat} {answers : List (Option Bytes)} {r₀ : Receiver η}
      (hstate : r.state = .receiving) (hle : k ≤ r.currentIncrement)
      (hr₀ : r₀ = { r with lastActivityMs := r₀.lastActivityMs })
      (h : BlastAnswer H sent r₀ k r' answers)

/-- A call that does nothing is a turn. -/
theorem Turn.refl (H : ActionHandler η) (r : Receiver η) : Turn H r r :=
  .same rfl rfl rfl rfl rfl id

/-- A call that only touches what the increment does not depend on. -/
theorem Collecting.congr {r r' : Receiver η} (h : Collecting r)
    (hoff : r'.inCompletePhase = r.inCompletePhase) (hact : r'.activeHandler = r.activeHandler)
    (hh : ∀ a, (r'.handlers a).isSome = (r.handlers a).isSome)
    (hsize : r'.chunkPayloadSize = r.chunkPayloadSize)
    (hgeo : r'.geometry = r.geometry ∧ r'.fileSize = r.fileSize ∧ r'.bufferSizeKb = r.bufferSizeKb)
    (hcur : r'.currentIncrement = r.currentIncrement)
    (hw : r'.incrementWritten = r.incrementWritten)
    (hround : r'.retransmitRound = r.retransmitRound)
    (hbuf : r'.incrementBuf = r.incrementBuf) : Collecting r' := by
  obtain ⟨hgeo, hfile, hkb⟩ := hgeo
  obtain ⟨a, h₀, ha, hh₀⟩ := h.active
  have hsome : (r'.handlers a).isSome := by rw [hh, hh₀]; rfl
  obtain ⟨h₁, hh₁⟩ := Option.isSome_iff_exists.mp hsome
  constructor
  · rw [hoff, h.off]
  · exact ⟨a, h₁, by rw [hact, ha], hh₁⟩
  · rw [hsize]
    exact h.chunk_pos
  · rw [hgeo, hfile, hsize, hkb]
    exact h.geometry
  · rw [hcur, hgeo]
    exact h.more
  · rw [hw, h.unwritten]
  · rw [hround]
    exact h.round_le
  · rw [hbuf, hgeo, hcur]
    exact h.counted
  · rw [hbuf, hgeo, hcur, hsize]
    exact h.data_length

section Turns

variable (H : ActionHandler η) (e : Env)

/-- The tail of `handle_announce_`, for the receiver `r₀` that the announce found. -/
theorem turn_beginTransfer {r₀ r : Receiver η} (acks : List Bytes) (a : Announce)
    {chunkSize : Nat} (bufferKb : Nat) (hidle : r₀.state = .idle)
    (hphase : r.inCompletePhase = r₀.inCompletePhase) (hsize : 0 < chunkSize) {h : η}
    (hh : r.handlers a.action = some h) :
    Turn H r₀ (r.beginTransfer (context H e) acks a chunkSize bufferKb).1 := by
  unfold Receiver.beginTransfer
  dsimp only
  split_ifs with hzero hsent
  · exact .away (by simp [Receiver.reset]) fun _ => .inl ⟨rfl, rfl⟩
  · refine .begun hidle rfl rfl fun hoff => ?_
    exact {
      off := hphase.trans hoff
      active := ⟨a.action, h, rfl, hh⟩
      chunk_pos := hsize
      geometry := rfl
      more := by
        change 0 < (Geometry.ofTransfer a.fileSize.toNat chunkSize bufferKb).totalIncrements
        omega
      unwritten := rfl
      round_le := Nat.zero_le _
      counted := .reset _ _
      data_length := by simp [IncrementBuffer.reset] }
  · exact .away (by simp [Receiver.reset]) fun _ => .inl ⟨rfl, rfl⟩

theorem turn_handleAnnounce (r : Receiver η) (acks : List Bytes) (a : Announce) :
    Turn H r (r.handleAnnounce (context H e) acks a).1 := by
  unfold Receiver.handleAnnounce
  dsimp -iota -proj only
  split_ifs with h₁ h₂ h₃ h₄ h₅ h₆
  · exact .refl H r
  · exact .refl H r
  · exact .refl H r
  · exact .refl H r
  · exact .refl H r
  · exact .refl H r
  · have hidle : r.state = .idle := by
      by_contra hne
      simp [hne] at h₃
    split
    · exact .refl H r
    · next h hh =>
      obtain ⟨h', response, kb, hann⟩ : ∃ h' response kb,
          (context H e).handler.onAnnounce h a.fileSize a.md5 a.chunkSize a.action a.fileId
            (UInt16.ofNat maxIncrementKb) = (h', response, kb) := ⟨_, _, _, rfl⟩
      rw [hann]
      dsimp only
      have haway (h₁ : η) : Turn H r (r.setHandler a.action h₁) :=
        .away (by simp [Receiver.setHandler, hidle]) fun _ => .inr ⟨hidle, rfl⟩
      split_ifs with hacc hchunk
      · exact haway h'
      · exact .away (by simp [Receiver.setHandler, hidle]) fun _ => .inr ⟨hidle, rfl⟩
      · refine turn_beginTransfer H e acks a _ hidle rfl ?_ (h := h') (by simp [Receiver.setHandler])
        have hne : response.negotiatedChunkSize ≠ 0 := by
          rintro hz
          simp [hz] at hchunk
        exact Nat.pos_of_ne_zero fun hz => hne (UInt16.toNat_inj.mp hz)

/-- A data frame stores a chunk of the increment or changes nothing that matters. -/
theorem handleFileData_stores (r : Receiver η) (payload : Bytes) :
    (∃ now, (r.handleFileData (context H e) payload).1 = { r with lastActivityMs := now }) ∨
      ∃ i buf, r.state = .receiving ∧ (r.handleFileData (context H e) payload).1 =
          { r with lastActivityMs := e.now, incrementBuf := buf } ∧
        (Collecting r → i < r.geometry.chunksInIncrement r.currentIncrement ∧
          ∀ j, buf.isChunkReceived j = (decide (i = j) || r.incrementBuf.isChunkReceived j)) ∧
        (Collecting r → Collecting { r with lastActivityMs := e.now, incrementBuf := buf }) := by
  generalize hy : r.handleFileData (context H e) payload = y
  unfold Receiver.handleFileData at hy
  dsimp only at hy
  split_ifs at hy with h₁ h₂ h₃ h₄ h₅ h₆ h₇
  · exact hy ▸ .inl ⟨r.lastActivityMs, rfl⟩
  · exact hy ▸ .inl ⟨r.lastActivityMs, rfl⟩
  · exact hy ▸ .inl ⟨r.lastActivityMs, rfl⟩
  · exact hy ▸ .inl ⟨r.lastActivityMs, rfl⟩
  · exact hy ▸ .inl ⟨r.lastActivityMs, rfl⟩
  · exact hy ▸ .inl ⟨e.now, rfl⟩
  · exact hy ▸ .inl ⟨e.now, rfl⟩
  · subst hy
    have hstate : r.state = .receiving := by
      by_contra hne
      simp [hne] at h₂
    generalize hseq : leDecode (payload.take 4) = sequence at *
    set i := sequence % r.geometry.chunksPerIncrement % 2 ^ 16 with hi
    set buf : IncrementBuffer := { r.incrementBuf with
      data := overwrite r.incrementBuf.data (i * r.chunkPayloadSize) (payload.drop 4) } with hbuf
    have hnew : r.incrementBuf.isChunkReceived i = false := by simpa using h₆
    have hcounted (hc : Collecting r) :
        buf.Counted (r.geometry.chunksInIncrement r.currentIncrement) :=
      ⟨hc.counted.bitmap_length, hc.counted.expected, hc.counted.received⟩
    have hlt (hc : Collecting r) : i < r.geometry.chunksInIncrement r.currentIncrement :=
      hc.position_lt (by omega) (by omega)
    refine .inr ⟨i, buf.markChunkReceived i, hstate, rfl, fun hc => ⟨hlt hc, ?_⟩, fun hc => ?_⟩
    · exact (hcounted hc).isChunkReceived_mark (hlt hc) hnew
    · exact { hc with
        counted := (hcounted hc).mark (hc.chunks_bounds _).2 (hlt hc) hnew
        data_length := by
          rw [IncrementBuffer.markChunkReceived_eq ((hcounted hc).byte_lt (hlt hc)) hnew]
          exact (length_overwrite (by omega)).trans hc.data_length }

/-- Data marks its chunk, or is dropped. -/
theorem turn_handleFileData (r : Receiver η) (payload : Bytes) :
    Turn H r (r.handleFileData (context H e) payload).1 := by
  rcases handleFileData_stores H e r payload with ⟨now, heq⟩ | ⟨i, buf, hstate, heq, hbits, hc⟩
  · rw [heq]
    exact .same rfl rfl rfl rfl rfl fun hc => { hc with }
  · rw [heq]
    exact .stored hstate hstate rfl rfl hbits hc

/-- An abort ends the transfer, and the chunks are given up. -/
theorem turn_abort (r : Receiver η) (acks : List Bytes) (reason : UInt8) (notifySender : Bool) :
    Turn H r (r.abort (context H e) acks reason notifySender).1 :=
  .away (by simp [Receiver.abort, Receiver.reset]) fun _ => .inl ⟨rfl, rfl⟩

theorem turn_handleEnd (r : Receiver η) (acks : List Bytes) :
    Turn H r (r.handleEnd (context H e) acks).1 := by
  unfold Receiver.handleEnd
  split
  · exact .refl H r
  · split
    · dsimp only
      split
      · exact .away (by simp [Receiver.setHandler]) (by simp [Receiver.setHandler])
      · exact .away (by simp [Receiver.reset]) fun _ => .inl ⟨rfl, rfl⟩
    · exact .refl H r

theorem turn_handleAbort (r : Receiver η) (reason : UInt8) :
    Turn H r (r.handleAbort (context H e) reason) := by
  unfold Receiver.handleAbort
  split
  · exact .refl H r
  · exact .away (by simp [Receiver.reset]) fun _ => .inl ⟨rfl, rfl⟩

/-- The restart concerns two fields. -/
theorem performRestartIfDue_eq (r : Receiver η) :
    ∃ pending restarted, r.performRestartIfDue (context H e) =
      { r with restartPending := pending, restarted := restarted } := by
  unfold Receiver.performRestartIfDue
  split
  · exact ⟨r.restartPending, r.restarted, rfl⟩
  · exact ⟨false, true, rfl⟩

/-- A `BLAST_COMPLETE` marks nothing; it takes the receiver to the next increment, to the end, or
nowhere. -/
theorem turn_handleBlastComplete {r : Receiver η} (hr : r.state = .receiving → Collecting r)
    (acks : List Bytes) (k : Nat) :
    Turn H r (r.handleBlastComplete (context H e) acks k).1 := by
  by_cases hstate : r.state = .receiving
  · by_cases hle : k ≤ r.currentIncrement
    · obtain ⟨r', new, ok, heq, h⟩ := handleBlastComplete_answer H e (hr hstate) hstate acks hle
      rw [heq]
      exact .asked hstate hle rfl h
    · have hactive : r.active?.isNone = false := by
        obtain ⟨a, h, -, hact⟩ := (hr hstate).active?
        simp [hact]
      rw [Receiver.handleBlastComplete, if_neg (by simp [hstate, hactive])]
      dsimp only
      rw [if_pos (by omega)]
      exact .same rfl rfl rfl rfl rfl fun hc => { hc with }
  · rw [Receiver.handleBlastComplete, if_pos (by simp [hstate])]
    exact .refl H r

/-- The clock is noted before a packet is looked at. -/
theorem Turn.of_touch {H : ActionHandler η} {r r' : Receiver η} {now : UInt32}
    (h : Turn H { r with lastActivityMs := now } r') : Turn H r r' := by
  cases h with
  | same hstate hoff hcur hgeo hbuf hc =>
    exact .same hstate hoff hcur hgeo hbuf fun h => hc { h with }
  | away hstate hoff => exact .away hstate hoff
  | begun hidle hstate hzero hc => exact .begun hidle hstate hzero hc
  | stored hstate hstate' hcur hgeo hbits hc =>
    exact .stored hstate hstate' hcur hgeo (fun h => hbits { h with }) fun h => hc { h with }
  | asked hstate hle hr₀ h => exact .asked hstate hle hr₀ h

theorem turn_handleFileTransfer {r : Receiver η} (hr : r.state = .receiving → Collecting r)
    (acks : List Bytes) (payload : Bytes) :
    Turn H r (r.handleFileTransfer (context H e) acks payload).1 := by
  unfold Receiver.handleFileTransfer
  split
  · exact .refl H r
  · dsimp only
    refine @Turn.of_touch _ H r _ (context H e).now ?_
    split_ifs
    · exact turn_handleAnnounce H e _ acks _
    · exact .refl H _
    · exact turn_handleEnd H e _ acks
    · exact .refl H _
    · exact turn_handleAbort H e _ _
    · exact .refl H _
    · have hr' : r.state = .receiving →
          Collecting { r with lastActivityMs := (context H e).now } := fun h => { hr h with }
      exact turn_handleBlastComplete H e hr' acks _
    · exact .refl H _
    · exact .refl H _

/-- The loop only ends a transfer that has timed out, or goes on with its completion. -/
theorem turn_loop (r : Receiver η) (acks : List Bytes) :
    Turn H r (r.loop (context H e) acks).1 := by
  obtain ⟨pending, restarted, hr⟩ := performRestartIfDue_eq H e r
  unfold Receiver.loop
  rw [hr]
  dsimp only
  repeat' split
  all_goals first
    | exact .same rfl rfl rfl rfl rfl fun hc => { hc with }
    | exact .away (by simp [Receiver.abort, Receiver.reset]) fun _ => .inl ⟨rfl, rfl⟩

theorem turn_setMaxChunkSize (r : Receiver η) (maxChunk : UInt16) :
    Turn H r (r.setMaxChunkSize H maxChunk) := by
  refine .same rfl rfl rfl rfl rfl fun hc => ?_
  refine hc.congr rfl rfl (fun a => ?_) rfl ⟨rfl, rfl, rfl⟩ rfl rfl rfl rfl
  by_cases ha : a = actionOtaFlash
  · subst ha
    simp [Receiver.setMaxChunkSize]
  · simp [Receiver.setMaxChunkSize, Function.update_of_ne ha]

end Turns

/-! ## The chunks that were received -/

/-- The chunks of the current increment that are marked. -/
def marked (r : Receiver η) : Finset (Nat × Nat) :=
  ((Finset.range r.incrementBuf.chunksExpected).filter
    fun i => r.incrementBuf.isChunkReceived i = true).image (r.currentIncrement, ·)

/-- The history of the chunks, by increment and position: everything that was ever marked in
this transfer. -/
def noteMarked (r : Receiver η) (g : Finset (Nat × Nat)) : Finset (Nat × Nat) :=
  if r.state = .idle then ∅ else g ∪ marked r

/-- Every chunk of increment `k` was received. -/
def ReceivedAll (r : Receiver η) (g : Finset (Nat × Nat)) (k : Nat) : Prop :=
  ∀ i < r.geometry.chunksInIncrement k, (k, i) ∈ g

/-- The history of a receiver that is collecting: the earlier increments are there, and of the
current one what is marked. -/
structure Collects (r : Receiver η) (g : Finset (Nat × Nat)) : Prop where
  collecting : Collecting r
  earlier : ∀ k < r.currentIncrement, ReceivedAll r g k
  current : ∀ i < r.geometry.chunksInIncrement r.currentIncrement,
    (r.currentIncrement, i) ∈ g ↔ r.incrementBuf.isChunkReceived i = true
  later : ∀ p ∈ g, p.1 ≤ r.currentIncrement

/-- The chunks that are marked are those of the current increment with a bit in the buffer. -/
theorem mem_marked {r : Receiver η} {p : Nat × Nat} :
    p ∈ marked r ↔ p.1 = r.currentIncrement ∧ p.2 < r.incrementBuf.chunksExpected ∧
      r.incrementBuf.isChunkReceived p.2 = true := by
  obtain ⟨k, i⟩ := p
  simp only [marked, Finset.mem_image, Finset.mem_filter, Finset.mem_range, Prod.mk.injEq]
  constructor
  · rintro ⟨j, ⟨hj, hbit⟩, rfl, rfl⟩
    exact ⟨rfl, hj, hbit⟩
  · rintro ⟨rfl, hi, hbit⟩
    exact ⟨i, ⟨hi, hbit⟩, rfl, rfl⟩

/-- Noting what is marked makes the history right for the current increment, if it holds
nothing else of it. -/
theorem Collects.note {r : Receiver η} {g : Finset (Nat × Nat)} (hc : Collecting r)
    (hearlier : ∀ k < r.currentIncrement, ReceivedAll r g k)
    (hcurrent : ∀ i < r.geometry.chunksInIncrement r.currentIncrement,
      (r.currentIncrement, i) ∈ g → r.incrementBuf.isChunkReceived i = true)
    (hlater : ∀ p ∈ g, p.1 ≤ r.currentIncrement) : Collects r (g ∪ marked r) where
  collecting := hc
  earlier k hk i hi := Finset.mem_union_left _ (hearlier k hk i hi)
  current i hi := by
    rw [Finset.mem_union, mem_marked, hc.counted.expected]
    constructor
    · rintro (h | ⟨-, -, h⟩)
      · exact hcurrent i hi h
      · exact h
    · exact fun h => .inr ⟨rfl, hi, h⟩
  later p hp := by
    rcases Finset.mem_union.mp hp with h | h
    · exact hlater p h
    · exact (mem_marked.mp h).1.le

/-- What holds of every state of a run. -/
structure Follows (r : Receiver η) (g : Finset (Nat × Nat)) : Prop where
  idle : r.state = .idle → g = ∅ ∧ r.inCompletePhase = false
  receiving : r.state = .receiving → Collects r g

/-- All chunks of the current increment have been marked exactly if the buffer says that it is
complete. -/
theorem Collects.receivedAll_iff {r : Receiver η} {g : Finset (Nat × Nat)} (h : Collects r g) :
    ReceivedAll r g r.currentIncrement ↔ r.incrementBuf.isComplete = true := by
  rw [h.collecting.counted.isComplete_iff]
  exact forall₂_congr h.current

/-- A `BLAST_COMPLETE` after which the receiver is collecting. -/
theorem Collects.answered {H : ActionHandler η} {sent : Bool} {k : Nat} {r r' : Receiver η}
    {answers : List (Option Bytes)} {g : Finset (Nat × Nat)} (h : Collects r g)
    (hb : BlastAnswer H sent r k r' answers) (hrec : r'.state = .receiving) :
    Collects r' (g ∪ marked r') := by
  have hmarked : ∀ i < r.geometry.chunksInIncrement r.currentIncrement,
      (r.currentIncrement, i) ∈ g → r.incrementBuf.isChunkReceived i = true :=
    fun i hi => (h.current i hi).mp
  cases hb with
  | earlier => exact .note h.collecting h.earlier hmarked h.later
  | gaps _ _ hround => exact .note { h.collecting with round_le := hround } h.earlier hmarked h.later
  | unsent | last => cases hrec
  | exhausted _ _ _ hended | refused _ _ _ _ hended => cases hended.1.symm.trans hrec
  | @next a h' _ hc _ _ hmore ha =>
    refine .note (h.collecting.next h' ha hmore) ?_ ?_ ?_
    · intro k hk i hi
      rcases Nat.lt_succ_iff_lt_or_eq.mp hk with hlt | rfl
      · exact h.earlier k hlt i hi
      · exact h.receivedAll_iff.mpr hc i hi
    · intro i hi hmem
      exact absurd (h.later _ hmem) (Nat.not_succ_le_self _)
    · intro p hp
      exact (h.later p hp).trans (Nat.le_succ _)

/-- Every call keeps it. -/
theorem Follows.turn {H : ActionHandler η} {r r' : Receiver η} {g : Finset (Nat × Nat)}
    (h : Follows r g) (ht : Turn H r r') : Follows r' (noteMarked r' g) := by
  constructor
  · intro hidle
    refine ⟨by rw [noteMarked, if_pos hidle], ?_⟩
    cases ht with
    | same hstate hoff hcur hgeo hbuf hc => exact hoff.trans (h.idle (hstate ▸ hidle)).2
    | away hstate hoff =>
      rcases hoff hidle with hended | ⟨hidle', hsame⟩
      · exact hended.2
      · exact hsame.trans (h.idle hidle').2
    | begun hidle' hstate hzero hc => simp [hstate] at hidle
    | stored hstate hstate' hcur hgeo hbits hc => simp [hstate'] at hidle
    | asked hstate hle hr₀ hb =>
      have hoff := (h.receiving hstate).collecting.off
      rw [hr₀] at hb
      cases hb with
      | earlier hk | gaps hk hc hround | unsent hk hc hs | last hk hc hs ht hlast
      | next hk hc hs ht hmore ha => exact hoff
      | exhausted hk hc hround hended => exact hended.2
      | refused hk hc hs ht hended => exact hended.2
  · intro hrec
    rw [noteMarked, if_neg (by simp [hrec])]
    cases ht with
    | same hstate hoff hcur hgeo hbuf hc =>
      have h := h.receiving (hstate ▸ hrec)
      refine .note (hc h.collecting) ?_ ?_ ?_
      · rw [hcur]
        intro k hk i hi
        exact h.earlier k hk i (hgeo ▸ hi)
      · rw [hcur, hgeo, hbuf]
        exact fun i hi => (h.current i hi).mp
      · rw [hcur]
        exact h.later
    | away hstate hoff => exact absurd hrec hstate
    | begun hidle hstate hzero hc =>
      obtain ⟨rfl, hoff⟩ := h.idle hidle
      refine .note (hc hoff) ?_ (by simp) (by simp)
      rw [hzero]
      simp
    | @stored i hstate hstate' hcur hgeo hbits hc =>
      have h := h.receiving hstate
      obtain ⟨-, hbit⟩ := hbits h.collecting
      refine .note (hc h.collecting) ?_ ?_ ?_
      · rw [hcur]
        intro k hk i hi
        exact h.earlier k hk i (hgeo ▸ hi)
      · rw [hcur, hgeo]
        intro j hj hmem
        simp [hbit, (h.current j hj).mp hmem]
      · rw [hcur]
        exact h.later
    | @asked _ _ _ r₀ hstate hle hr₀ hb =>
      have h := h.receiving hstate
      have htouched : Collects r₀ g := by
        rw [hr₀]
        exact { h with collecting := { h.collecting with } }
      exact htouched.answered hb hrec

namespace Run

/-- The history of a run. -/
def noteChunks (_ : Run η) (_ : Event) (s' : Run η) (g : Finset (Nat × Nat)) :
    Finset (Nat × Nat) := noteMarked s'.receiver g

/-- Runs from the constructor on, with the chunks received. -/
def Receives (H : ActionHandler η) (s : Run η × Finset (Nat × Nat)) : Prop :=
  Transition.Reachable (fun s => Initial s.1 ∧ s.2 = ∅) (fun _ _ => True)
    (Transition.recording (step H) noteChunks) s

/-- Every event of a run is a turn. -/
theorem turn_step (H : ActionHandler η) {s : Run η} {g : Finset (Nat × Nat)}
    (h : Follows s.receiver g) (ev : Event) : Turn H s.receiver (s.step H ev).receiver := by
  have hr : s.receiver.state = .receiving → Collecting s.receiver :=
    fun hs => (h.receiving hs).collecting
  cases ev with
  | fileTransfer e payload => exact turn_handleFileTransfer H e hr _ _
  | fileData e payload => exact turn_handleFileData H e _ _
  | loop e => exact turn_loop H e _ _
  | abort e reason notifySender => exact turn_abort H e _ s.acks reason notifySender
  | setAnnounceTxCounter txCounter => exact .same rfl rfl rfl rfl rfl fun hc => { hc with }
  | setBlastCompleteTxCounter txCounter => exact .same rfl rfl rfl rfl rfl fun hc => { hc with }
  | setOtaEnabled enabled => exact .same rfl rfl rfl rfl rfl fun hc => { hc with }
  | setDeepSleepActive active => exact .same rfl rfl rfl rfl rfl fun hc => { hc with }
  | setMaxChunkSize maxChunk => exact turn_setMaxChunkSize H _ _

/-- In every state of a run the history has the chunks that the receiver has marked. -/
theorem Receives.follows {H : ActionHandler η} {s : Run η × Finset (Nat × Nat)}
    (hs : Receives H s) : Follows s.1.receiver s.2 := by
  refine hs.invariant (I := fun s => Follows s.1.receiver s.2) ?_ ?_
  · rintro ⟨_, _⟩ ⟨⟨handlers, rfl⟩, rfl⟩
    exact ⟨fun _ => ⟨rfl, rfl⟩, by rintro ⟨⟩⟩
  · intro s ev h _
    exact h.turn (turn_step H h ev)

/-! ## Repeated delivery -/

/-- One copy of a `BLAST_COMPLETE`, and the next turn of `loop`, which comes before the radio
counts as silent. -/
structure Delivery where
  frame : Env
  loop : Env
  prompt : loop.now - frame.now ≤ Receiver.radioSilenceAbortMs

/-- A `BLAST_COMPLETE` for increment `k` is heard. -/
def hear (H : ActionHandler η) (k : Nat) (d : Delivery) (s : Run η × Finset (Nat × Nat)) :
    Run η × Finset (Nat × Nat) :=
  Transition.recording (step H) noteChunks s (.fileTransfer d.frame ([0x03] ++ leEncode 2 k))

/-- It is delivered: the receiver hears it, and its loop comes round. -/
def deliver (H : ActionHandler η) (k : Nat) (d : Delivery) (s : Run η × Finset (Nat × Nat)) :
    Run η × Finset (Nat × Nat) :=
  Transition.recording (step H) noteChunks (hear H k d s) (.loop d.loop)

/-- The bitmaps of the `GAPS` acknowledgements that a call has sent on the way from `s` to `s'`: of those that
it attempted, the ones for which `send_ack_fn_` said yes. -/
def sentBitmaps (e : Env) (s s' : Run η) : List Bytes :=
  ((s'.acks.zipIdx.drop s.acks.length).filter fun a => e.ackSent a.2).filterMap fun a => gapsBitmap? a.1

/-- The answers to a copy: what the receiver sends when it hears it, and in its next loop. -/
def answers (H : ActionHandler η) (k : Nat) (d : Delivery) (s : Run η × Finset (Nat × Nat)) : List Bytes :=
  sentBitmaps d.frame s.1 (hear H k d s).1 ++ sentBitmaps d.loop (hear H k d s).1 (deliver H k d s).1

/-- Every copy is answered with this bitmap, which is empty exactly when every chunk of the
increment was received, and none of them ends the transfer. -/
def AnsweredWith (H : ActionHandler η) (k : Nat) (bitmap : Bytes)
    (s : Run η × Finset (Nat × Nat)) : List Delivery → Prop
  | [] => True
  | d :: ds =>
    answers H k d s ≠ [] ∧
      (∀ b ∈ answers H k d s, b = bitmap) ∧
      (bitmap = [] ↔ ReceivedAll s.1.receiver s.2 k) ∧
      (deliver H k d s).1.receiver.state ≠ .idle ∧
      AnsweredWith H k bitmap (deliver H k d s) ds

/-- Every copy is answered, and all of them in the same way. -/
def Answered (H : ActionHandler η) (k : Nat) (s : Run η × Finset (Nat × Nat))
    (ds : List Delivery) : Prop := ∃ bitmap, AnsweredWith H k bitmap s ds

/-- Each copy has its acknowledgement sent.  The first of them is the attempt number `n`. -/
def AllSent (n : Nat) : List Delivery → Prop
  | [] => True
  | d :: ds => d.frame.ackSent n = true ∧ AllSent (n + 1) ds

/-- The receiver collects a later increment, or its rounds last for these copies, or the increment is complete
and the copies do not meet what its completion leads to.  The acknowledgements are sent; a complete increment
takes two, one before the write and one after it. -/
def Answerable (H : ActionHandler η) (k : Nat) (s : Run η) (ds : List Delivery) : Prop :=
  s.receiver.state = .receiving ∧
    ((k < s.receiver.currentIncrement ∧ AllSent s.acks.length ds) ∨
      (k = s.receiver.currentIncrement ∧ s.receiver.incrementBuf.isComplete = false ∧
        s.receiver.retransmitRound + ds.length ≤ Receiver.maxRetransmitRounds ∧ AllSent s.acks.length ds) ∨
      (k = s.receiver.currentIncrement ∧ s.receiver.incrementBuf.isComplete = true ∧
        TakesIncrement H s.receiver ∧ ∃ d rest, ds = d :: rest ∧ d.frame.ackSent s.acks.length = true ∧
          (rest = [] ∨ s.receiver.currentIncrement + 1 < s.receiver.geometry.totalIncrements ∧
            AllSent (s.acks.length + 2) rest)))

section Deliveries

variable {H : ActionHandler η} {s : Run η × Finset (Nat × Nat)} {k : Nat}

/-- Delivering a copy is part of a run. -/
theorem Receives.deliver (hs : Receives H s) (d : Delivery) : Receives H (deliver H k d s) :=
  .next (.next hs trivial) trivial

theorem Receives.runFrom (hs : Receives H s) (events : List Event) :
    Receives H (Transition.runFrom (Transition.recording (step H) noteChunks) s events) := by
  induction events generalizing s with
  | nil => exact hs
  | cons ev events ih => exact ih (.next hs trivial)

/-- `loop` sends no `GAPS`. -/
theorem loop_bitmaps (H : ActionHandler η) (e : Env) (r : Receiver η) (acks : List Bytes) :
    ∃ new, (r.loop (context H e) acks).2 = acks ++ new ∧ new.filterMap gapsBitmap? = [] := by
  have hnone : ∃ new, acks = acks ++ new ∧ new.filterMap gapsBitmap? = [] := ⟨[], by simp, rfl⟩
  have hack (r' : Receiver η) (result : UInt8) (hne : result ≠ ackGaps) (trailing : Bytes) :
      ∃ new, (r'.sendAck (context H e) acks result trailing).1 = acks ++ new ∧
        new.filterMap gapsBitmap? = [] := by
    obtain ⟨ack, hack, hb⟩ := gapsBitmap?_sendAck H e r' acks hne trailing
    exact ⟨[ack], hack, by simp [hb]⟩
  unfold Receiver.loop
  dsimp only
  repeat' split
  all_goals first
    | exact hnone
    | exact hack _ ackComplete (by decide) _
    | exact hack _ ackAbort (by decide) _

/-- A packet that announces the end of a round is handed to its handler. -/
theorem handleFileTransfer_blastComplete (H : ActionHandler η) (e : Env) (r : Receiver η)
    (acks : List Bytes) (k : Nat) :
    r.handleFileTransfer (context H e) acks ([0x03] ++ leEncode 2 k) =
      ({ r with lastActivityMs := e.now } : Receiver η).handleBlastComplete (context H e) acks
        (k % 2 ^ 16) := by
  have hk : leDecode (leEncode 2 k) = k % 2 ^ 16 := leDecode_leEncode 2 k
  rw [← hk]
  rfl

/-- What a call has sent of the acknowledgements `new`. -/
theorem sentBitmaps_eq {e : Env} {r r' : Run η} (new : List Bytes) (hacks : r'.acks = r.acks ++ new) :
    sentBitmaps e r r' = ((new.map gapsBitmap?).zipIdx r.acks.length).filterMap fun a =>
      if e.ackSent a.2 then a.1 else none := by
  have hnew : r'.acks.zipIdx.drop r.acks.length = new.zipIdx r.acks.length := by
    rw [hacks, List.zipIdx_append, List.drop_left' (List.length_zipIdx ..), Nat.zero_add]
  rw [sentBitmaps, hnew, List.filterMap_filter, List.zipIdx_map, List.filterMap_map]
  rfl

theorem sentBitmaps_eq_nil {e : Env} {r r' : Run η} (new : List Bytes) (hacks : r'.acks = r.acks ++ new)
    (hnew : new.filterMap gapsBitmap? = []) : sentBitmaps e r r' = [] := by
  rw [sentBitmaps_eq new hacks, List.filterMap_eq_nil_iff]
  intro a ha
  obtain ⟨ack, hack, hbitmap⟩ := List.mem_map.mp (List.fst_mem_of_mem_zipIdx ha)
  rw [← hbitmap, List.filterMap_eq_nil_iff.mp hnew ack hack, ite_self]

/-- Outside of `RECEIVING` a `BLAST_COMPLETE` is not answered. -/
theorem answers_of_not_receiving (hstate : s.1.receiver.state ≠ .receiving) (d : Delivery) :
    answers H k d s = [] := by
  have hframe : s.1.receiver.handleFileTransfer (context H d.frame) s.1.acks
      ([0x03] ++ leEncode 2 k) =
        ({ s.1.receiver with lastActivityMs := d.frame.now }, s.1.acks, false) := by
    rw [handleFileTransfer_blastComplete, Receiver.handleBlastComplete, if_pos (by simp [hstate])]
  have hheard : (hear H k d s).1 =
      { receiver := { s.1.receiver with lastActivityMs := d.frame.now }, acks := s.1.acks } := by
    simp only [hear, Transition.recording, step, hframe]
  obtain ⟨new, hloop, hnew⟩ := loop_bitmaps H d.loop
    { s.1.receiver with lastActivityMs := d.frame.now } s.1.acks
  have hfirst : sentBitmaps d.frame s.1 (hear H k d s).1 = [] :=
    sentBitmaps_eq_nil [] (by rw [hheard, List.append_nil]) rfl
  have hsecond : sentBitmaps d.loop (hear H k d s).1 (deliver H k d s).1 = [] := by
    refine sentBitmaps_eq_nil new ?_ hnew
    simp only [deliver, Transition.recording, step, hheard, hloop]
  rw [answers, hfirst, hsecond]
  rfl

/-- The turn of `loop` after a copy that the receiver has looked at leaves the increment
alone. -/
theorem loop_prompt {r : Receiver η} {d : Delivery} (acks : List Bytes)
    (hoff : r.inCompletePhase = false) (hseen : r.state = .idle ∨ r.lastActivityMs = d.frame.now)
    (hstate : r.state ≠ .announced) :
    ∃ pending restarted, r.loop (context H d.loop) acks =
      ({ r with restartPending := pending, restarted := restarted }, acks) := by
  obtain ⟨pending, restarted, hr⟩ := performRestartIfDue_eq H d.loop r
  refine ⟨pending, restarted, ?_⟩
  unfold Receiver.loop
  rw [hr]
  dsimp only
  rw [if_neg (by simp [hoff])]
  split
  · rfl
  · next hactive =>
    have hla : r.lastActivityMs = d.frame.now := by
      refine hseen.resolve_left fun hidle => ?_
      simp [hidle] at hactive
    rw [hla]
    have hprompt := UInt32.not_lt.mpr d.prompt
    split
    · next h => exact absurd h hstate
    · rfl
    · rfl
    · exact if_neg hprompt

/-- What delivering a copy to a collecting receiver does. -/
theorem deliver_cases (hs : Receives H s) (hstate : s.1.receiver.state = .receiving)
    (hk : k ≤ s.1.receiver.currentIncrement) (d : Delivery) :
    ∃ r' bitmaps pending restarted,
      BlastAnswer H (d.frame.ackSent s.1.acks.length)
        { s.1.receiver with lastActivityMs := d.frame.now } k r' bitmaps ∧
      answers H k d s = (bitmaps.zipIdx s.1.acks.length).filterMap
        (fun a => if d.frame.ackSent a.2 then a.1 else none) ∧
      (deliver H k d s).1.receiver =
        { r' with restartPending := pending, restarted := restarted } ∧
      (deliver H k d s).1.acks.length = s.1.acks.length + bitmaps.length := by
  have hc := (hs.follows.receiving hstate).collecting
  have hlt := hc.increments_lt
  have hmore := hc.more
  have hframe := handleFileTransfer_blastComplete H d.frame s.1.receiver s.1.acks k
  rw [Nat.mod_eq_of_lt (show k < 2 ^ 16 by omega)] at hframe
  have hc' : Collecting { s.1.receiver with lastActivityMs := d.frame.now } := { hc with }
  obtain ⟨r', new, ok, heq, hanswer⟩ :=
    handleBlastComplete_answer H d.frame hc' hstate s.1.acks hk
  have hquiet : r'.inCompletePhase = false ∧
      (r'.state = .idle ∨ r'.lastActivityMs = d.frame.now) ∧ r'.state ≠ .announced := by
    generalize new.map gapsBitmap? = bitmaps at hanswer
    cases hanswer with
    | earlier hk => exact ⟨hc.off, .inr rfl, by simp [hstate]⟩
    | gaps hk hb hround => exact ⟨hc.off, .inr rfl, by simp⟩
    | exhausted hk hb hround hended => exact ⟨hended.2, .inl hended.1, by simp [hended.1]⟩
    | unsent hk hb hsent => exact ⟨hc.off, .inr rfl, by simp⟩
    | last hk hb hsent ht hlast => exact ⟨hc.off, .inr rfl, by simp⟩
    | next hk hb hsent ht hmore ha => exact ⟨hc.off, .inr rfl, by simp⟩
    | refused hk hb hsent ht hended => exact ⟨hended.2, .inl hended.1, by simp [hended.1]⟩
  obtain ⟨pending, restarted, hloop⟩ :=
    loop_prompt (H := H) (d := d) (s.1.acks ++ new) hquiet.1 hquiet.2.1 hquiet.2.2
  have hheard : (hear H k d s).1 = { receiver := r', acks := s.1.acks ++ new } := by
    simp only [hear, Transition.recording, step, hframe, heq]
  have hdelivered : (deliver H k d s).1 =
      { receiver := { r' with restartPending := pending, restarted := restarted }, acks := s.1.acks ++ new } := by
    simp only [deliver, Transition.recording, step, hheard, hloop]
  have hfirst := sentBitmaps_eq (e := d.frame) new
    (show (hear H k d s).1.acks = s.1.acks ++ new by rw [hheard])
  have hsecond : sentBitmaps d.loop (hear H k d s).1 (deliver H k d s).1 = [] :=
    sentBitmaps_eq_nil [] (by rw [hheard, hdelivered, List.append_nil]) rfl
  refine ⟨r', new.map gapsBitmap?, pending, restarted, hanswer, ?_, ?_, ?_⟩
  · rw [answers, hfirst, hsecond, List.append_nil]
  · rw [hdelivered]
  · rw [hdelivered, List.length_append, List.length_map]

/-- A collecting receiver answers every copy for an earlier increment, with an empty bitmap, as long as the
acknowledgement can be sent. -/
theorem answered_earlier (hs : Receives H s) (hstate : s.1.receiver.state = .receiving)
    (hk : k < s.1.receiver.currentIncrement) (ds : List Delivery) :
    (AllSent s.1.acks.length ds → AnsweredWith H k [] s ds) ∧
      ∀ bitmap, AnsweredWith H k bitmap s ds → AllSent s.1.acks.length ds := by
  induction ds generalizing s with
  | nil => exact ⟨fun _ => trivial, fun _ _ => trivial⟩
  | cons d ds ih =>
    obtain ⟨r', bitmaps, pending, restarted, hanswer, hanswers, hr, hlength⟩ := deliver_cases hs hstate hk.le d
    have hall := (hs.follows.receiving hstate).earlier k hk
    cases hanswer with
    | earlier hk' =>
      have hstate' : (deliver H k d s).1.receiver.state = .receiving := by
        rw [hr]
        exact hstate
      have ih := ih (hs.deliver d) hstate' (by rw [hr]; exact hk)
      rw [hlength] at ih
      constructor
      · rintro ⟨hsent, hrest⟩
        exact ⟨by simp [hanswers, hsent], by simp [hanswers, hsent], iff_of_true rfl hall, by simp [hstate'],
          ih.1 hrest⟩
      · rintro bitmap ⟨hne, -, -, -, hrest⟩
        refine ⟨?_, ih.2 bitmap hrest⟩
        by_contra hsent
        exact hne (by simp [hanswers, hsent])
    | gaps hk' | exhausted hk' | unsent hk' | last hk' | next hk' | refused hk' =>
      exact absurd hk' hk.ne

/-- The copies for an incomplete increment are answered while the rounds last and the acknowledgements can be
sent. -/
theorem answered_gaps (hs : Receives H s) (hstate : s.1.receiver.state = .receiving)
    (hk : k = s.1.receiver.currentIncrement)
    (hinc : s.1.receiver.incrementBuf.isComplete = false) {bitmap : Bytes}
    (hb : bitmap = s.1.receiver.incrementBuf.receivedBitmap) {ds : List Delivery}
    (hround : s.1.receiver.retransmitRound + ds.length ≤ Receiver.maxRetransmitRounds)
    (hsent : AllSent s.1.acks.length ds) : AnsweredWith H k bitmap s ds := by
  induction ds generalizing s with
  | nil => trivial
  | cons d ds ih =>
    obtain ⟨r', bitmaps, pending, restarted, hanswer, hanswers, hr, hlength⟩ := deliver_cases hs hstate hk.le d
    have hcol := hs.follows.receiving hstate
    have hne : bitmap ≠ [] := by
      have hpos := (hcol.collecting.chunks_bounds s.1.receiver.currentIncrement).1
      refine List.ne_nil_of_length_pos ?_
      rw [hb, hcol.collecting.counted.bitmap_length]
      omega
    rw [List.length_cons] at hround
    obtain ⟨hsent, hrest⟩ := hsent
    cases hanswer with
    | gaps hk' hc hround' =>
      have hstate' : (deliver H k d s).1.receiver.state = .receiving := by rw [hr]
      refine ⟨by simp [hanswers, hsent], by simp [hanswers, hsent, hb], iff_of_false hne ?_, by simp [hstate'], ?_⟩
      · rw [hk, hcol.receivedAll_iff]
        simp [hinc]
      · refine ih (hs.deliver d) hstate' ?_ ?_ ?_ ?_ ?_
        · rw [hr]
          exact hk
        · rw [hr]
          exact hinc
        · rw [hr]
          exact hb
        · rw [hr]
          change s.1.receiver.retransmitRound + 1 + _ ≤ _
          omega
        · rw [hlength]
          exact hrest
    | earlier hk' => exact absurd hk hk'.ne
    | exhausted hk' hc hround' hended =>
      change _ ≤ s.1.receiver.retransmitRound at hround'
      omega
    | unsent hk' hc | last hk' hc | next hk' hc | refused hk' hc =>
      change s.1.receiver.incrementBuf.isComplete = true at hc
      simp [hinc] at hc

/-- And no longer. -/
theorem round_of_answeredWith (hs : Receives H s) (hstate : s.1.receiver.state = .receiving)
    (hk : k = s.1.receiver.currentIncrement)
    (hinc : s.1.receiver.incrementBuf.isComplete = false) {ds : List Delivery} {bitmap : Bytes}
    (h : AnsweredWith H k bitmap s ds) :
    s.1.receiver.retransmitRound + ds.length ≤ Receiver.maxRetransmitRounds ∧ AllSent s.1.acks.length ds := by
  induction ds generalizing s with
  | nil => exact ⟨(hs.follows.receiving hstate).collecting.round_le, trivial⟩
  | cons d ds ih =>
    obtain ⟨hne, -, -, hidle, hrest⟩ := h
    obtain ⟨r', bitmaps, pending, restarted, hanswer, hanswers, hr, hlength⟩ := deliver_cases hs hstate hk.le d
    rw [List.length_cons]
    cases hanswer with
    | gaps hk' hc hround' =>
      obtain ⟨hround, hsent⟩ := ih (hs.deliver d) (by rw [hr]) (by rw [hr]; exact hk) (by rw [hr]; exact hinc) hrest
      rw [hr] at hround
      rw [hlength] at hsent
      change s.1.receiver.retransmitRound + 1 + _ ≤ _ at hround
      refine ⟨by omega, ?_, hsent⟩
      by_contra hunsent
      exact hne (by simp [hanswers, hunsent])
    | earlier hk' => exact absurd hk hk'.ne
    | exhausted hk' hc hround' hended =>
      rw [hr] at hidle
      exact absurd hended.1 hidle
    | unsent hk' hc | last hk' hc | next hk' hc | refused hk' hc =>
      change s.1.receiver.incrementBuf.isComplete = true at hc
      simp [hinc] at hc

/-- A receiver that is not in `RECEIVING` answers none. -/
theorem not_answeredWith (hstate : s.1.receiver.state ≠ .receiving) {ds : List Delivery}
    (hne : ds ≠ []) {bitmap : Bytes} : ¬ AnsweredWith H k bitmap s ds := by
  cases ds with
  | nil => exact absurd rfl hne
  | cons d ds => exact fun h => h.1 (answers_of_not_receiving hstate d)

/-- The copies for a complete increment: the first of them has it flashed, unless the acknowledgement before the
write is not sent. -/
theorem answered_complete (hs : Receives H s) (hstate : s.1.receiver.state = .receiving)
    (hk : k = s.1.receiver.currentIncrement)
    (hcomplete : s.1.receiver.incrementBuf.isComplete = true) (d : Delivery)
    (ds : List Delivery) :
    Answered H k s (d :: ds) ↔ d.frame.ackSent s.1.acks.length = true ∧ TakesIncrement H s.1.receiver ∧
      (ds = [] ∨ s.1.receiver.currentIncrement + 1 < s.1.receiver.geometry.totalIncrements ∧
        AllSent (s.1.acks.length + 2) ds) := by
  obtain ⟨r', bitmaps, pending, restarted, hanswer, hanswers, hr, hlength⟩ := deliver_cases hs hstate hk.le d
  have hall : ReceivedAll s.1.receiver s.2 k := by
    rw [hk, (hs.follows.receiving hstate).receivedAll_iff]
    exact hcomplete
  cases hanswer with
  | earlier hk' => exact absurd hk hk'.ne
  | gaps hk' hc | exhausted hk' hc =>
    change s.1.receiver.incrementBuf.isComplete = false at hc
    simp [hcomplete] at hc
  | unsent hk' hc hsent =>
    refine iff_of_false ?_ fun h => absurd (hsent.symm.trans h.1) Bool.false_ne_true
    rintro ⟨bitmap, hne, -⟩
    exact hne (by simp [hanswers, hsent])
  | last hk' hc hsent ht hlast =>
    rw [takesIncrement_touch] at ht
    constructor
    · rintro ⟨bitmap, -, -, -, -, hrest⟩
      refine ⟨hsent, ht, .inl ?_⟩
      by_contra hne
      exact not_answeredWith (by simp [hr]) hne hrest
    · rintro ⟨-, -, rfl | ⟨hmore, -⟩⟩
      · exact ⟨[], by simp [hanswers, hsent], by simp [hanswers, hsent], iff_of_true rfl hall, by simp [hr],
          trivial⟩
      · exact absurd hlast (Nat.not_le.mpr hmore)
  | next hk' hc hsent ht hmore ha =>
    rw [takesIncrement_touch] at ht
    -- the increment is an earlier one from now on
    have hrest := answered_earlier (k := k) (hs.deliver d) (by rw [hr]) (by rw [hr, hk]; exact Nat.lt_succ_self _) ds
    rw [hlength] at hrest
    constructor
    · rintro ⟨bitmap, -, -, -, -, h⟩
      exact ⟨hsent, ht, .inr ⟨hmore, hrest.2 bitmap h⟩⟩
    · rintro ⟨-, -, hds⟩
      refine ⟨[], by simp [hanswers, hsent], by simp [hanswers, hsent], iff_of_true rfl hall, by simp [hr],
        hrest.1 ?_⟩
      rcases hds with rfl | ⟨-, hds⟩
      · trivial
      · exact hds
  | refused hk' hc hsent ht hended =>
    rw [takesIncrement_touch] at ht
    refine iff_of_false ?_ fun h => ht h.2.1
    rintro ⟨bitmap, -, -, -, hidle, -⟩
    rw [hr] at hidle
    exact hidle hended.1

end Deliveries

/-- In every reachable state, copies of a `BLAST_COMPLETE` for an increment not above the
current one are all answered, in the same and the right way, if and only if the receiver is
in `RECEIVING`, the acknowledgements that they ask for are sent, and one of the following holds:
the increment is an earlier one; it is incomplete and the retransmission rounds last; it is
complete, and the handler takes it, and no further copy comes unless there is another
increment. -/
theorem answered_iff {H : ActionHandler η} {s : Run η × Finset (Nat × Nat)}
    (hs : Receives H s) {k : Nat} (hk : k ≤ s.1.receiver.currentIncrement) {ds : List Delivery}
    (hne : ds ≠ []) : Answered H k s ds ↔ Answerable H k s.1 ds := by
  unfold Answerable
  by_cases hstate : s.1.receiver.state = .receiving
  · rw [and_iff_right hstate]
    rcases hk.lt_or_eq with hlt | heq
    · obtain ⟨hanswered, hsent⟩ := answered_earlier hs hstate hlt ds
      constructor
      · rintro ⟨bitmap, h⟩
        exact .inl ⟨hlt, hsent bitmap h⟩
      · rintro (⟨-, h⟩ | ⟨heq, -⟩ | ⟨heq, -⟩)
        · exact ⟨[], hanswered h⟩
        · exact absurd heq hlt.ne
        · exact absurd heq hlt.ne
    · cases hc : s.1.receiver.incrementBuf.isComplete with
      | false =>
        constructor
        · rintro ⟨bitmap, h⟩
          exact .inr (.inl ⟨heq, rfl, round_of_answeredWith hs hstate heq hc h⟩)
        · rintro (⟨hlt, -⟩ | ⟨-, -, hround, hsent⟩ | ⟨-, h, -⟩)
          · exact absurd heq hlt.ne
          · exact ⟨_, answered_gaps hs hstate heq hc rfl hround hsent⟩
          · cases h
      | true =>
        obtain ⟨d, ds, rfl⟩ := List.exists_cons_of_ne_nil hne
        rw [answered_complete hs hstate heq hc]
        constructor
        · rintro ⟨hsent, ht, hrest⟩
          exact .inr (.inr ⟨heq, rfl, ht, d, ds, rfl, hsent, hrest⟩)
        · rintro (⟨hlt, -⟩ | ⟨-, h, -⟩ | ⟨-, -, ht, d', ds', ⟨⟩, hsent, hrest⟩)
          · exact absurd heq hlt.ne
          · cases h
          · exact ⟨hsent, ht, hrest⟩
  · refine iff_of_false ?_ fun h => hstate h.1
    rintro ⟨bitmap, h⟩
    exact not_answeredWith hstate hne h

/-! ### A file of one chunk -/

/-- A receiver that takes every firmware file. -/
def sinkRun : Run Unit :=
  { receiver := { handlers := fun a => if a = actionOtaFlash then some () else none } }

def sinkEnd (events : List Event) : Run Unit × Finset (Nat × Nat) :=
  Transition.runFrom (Transition.recording (step sink) noteChunks) (sinkRun, ∅) events

theorem receives_sinkEnd (events : List Event) : Receives sink (sinkEnd events) :=
  Receives.runFrom (.start ⟨⟨_, rfl⟩, rfl⟩) events

/-- The announce of a file of one chunk. -/
def announceOneChunk : List Event :=
  [.setOtaEnabled true, .fileTransfer ⟨1000, fun _ => true⟩ ([0x00] ++ leEncode 4 1 ++
    List.replicate 16 0 ++ leEncode 2 64 ++ [actionOtaFlash] ++ List.replicate 12 0)]

/-- Its chunk, and the first `BLAST_COMPLETE`, after which the receiver waits for the end. -/
def flashOneChunk : List Event :=
  announceOneChunk ++ [.fileData ⟨1000, fun _ => true⟩ (leEncode 4 0 ++ [0xE9]),
    .fileTransfer ⟨1000, fun _ => true⟩ [0x03, 0, 0]]

/-- One copy, with every acknowledgement sent. -/
def plainDelivery (now : UInt32) : Delivery := ⟨⟨now, fun _ => true⟩, ⟨now, fun _ => true⟩, by simp⟩

theorem allSent_replicate (n : Nat) : AllSent n (List.replicate 10 (plainDelivery 2000)) :=
  ⟨rfl, rfl, rfl, rfl, rfl, rfl, rfl, rfl, rfl, rfl, trivial⟩

/-- Ten copies before the chunk has arrived are answered. -/
theorem answered_announceOneChunk :
    Answered sink 0 (sinkEnd announceOneChunk) (List.replicate 10 (plainDelivery 2000)) :=
  (answered_iff (receives_sinkEnd announceOneChunk) (by decide +kernel) (by simp)).mpr
    ⟨by decide +kernel, .inr (.inl ⟨by decide +kernel, by decide +kernel, by decide +kernel, allSent_replicate _⟩)⟩

/-- If the acknowledgement after the write is lost, the next copy is not answered. -/
theorem not_answered_flashOneChunk :
    ¬ ∀ s k ds, Receives sink s → s.1.receiver.state ≠ .idle →
      k ≤ s.1.receiver.currentIncrement → ds ≠ [] →
        ds.length ≤ 20 → Answered sink k s ds := by
  intro h
  obtain ⟨bitmap, hb⟩ := h (sinkEnd flashOneChunk) 0 [plainDelivery 2000]
    (receives_sinkEnd flashOneChunk) (by decide +kernel) (by decide +kernel) (by simp) (by simp)
  exact not_answeredWith (by decide +kernel) (by simp) hb

end Run

end FileReceiver

end EspTree
