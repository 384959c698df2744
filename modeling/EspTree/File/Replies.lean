import EspTree.File.Answer
import EspTree.File.Delivery
import EspTree.File.Moves

/-!
# What the receiver answers

The acknowledgements of each call of the receiver, with the counter that they refer to, and what
the call does to the transfer that the receiver is in.  An `ANNOUNCE` is answered once, with
`ACCEPT` or `REJECT` (`handleAnnounce_answer`); everything else is answered with `GAPS`, `ABORT` or
`COMPLETE` (`Serves`), and a `COMPLETE` needs an `END`.

The calls start with no acknowledgement, so the lists are those of one call.

`Serves` says it for a call of any kind but the announcement: the receiver ends its transfer or
stays with it, only an `END` opens the phase in which `COMPLETE` is repeated, and each answer is one
that the call may give in this state (`AnswerTo`).  It is proved for each handler by its branches,
with one lemma for a call that leaves the transfer alone and one for a call that ends it.
-/

namespace EspTree

open Wire

namespace FileReceiver

variable {η : Type}

/-! ## Acknowledgements -/

/-- The file that the receiver works on. -/
def Receiver.offer (r : Receiver η) : Offer := ⟨r.fileSize, r.lastAnnounceMd5, r.action, r.fileId⟩

/-- The file that an announce is about. -/
def Announce.offer (a : Announce) : Offer := ⟨a.fileSize.toNat, a.md5, a.action, a.fileId⟩

/-- The result byte of an acknowledgement. -/
def ackResult (ack : Bytes) : UInt8 := ack.getD 1 0

/-- The counter that an acknowledgement refers to. -/
def ackRef (ack : Bytes) : UInt32 := UInt32.ofNat (leDecode ((ack.drop 2).take 4))

/-- The announce that the manager packs is the one that the receiver reads. -/
theorem parse_announcePayload {c : OtaManager.Core} (hsize : c.offer.fileSize < 2 ^ 32) :
    (Receiver.parseAnnounce c.announcePayload.tail).offer = c.offer := by
  have htail : c.announcePayload.tail = leEncode 4 c.offer.fileSize ++ (c.offer.md5.bytes ++
      (leEncode 2 c.requestedChunkSize ++ ([c.offer.action] ++ c.offer.fileId.bytes))) := by
    simp [OtaManager.Core.announcePayload]
  rw [htail]
  generalize c.offer = o at hsize ⊢
  generalize c.requestedChunkSize = chunk
  obtain ⟨size, md5, action, fileId⟩ := o
  have hdrop : (leEncode 4 size ++ (md5.bytes ++ (leEncode 2 chunk ++
      ([action] ++ fileId.bytes)))).drop 23 = fileId.bytes := by
    rw [← List.append_assoc, ← List.append_assoc, ← List.append_assoc]
    exact List.drop_left' (by simp)
  have hget : (leEncode 4 size ++ (md5.bytes ++ (leEncode 2 chunk ++
      ([action] ++ fileId.bytes)))).getD 22 0 = action := by
    rw [← List.append_assoc, ← List.append_assoc, List.getD_append_right _ _ _ _ (by simp)]
    simp
  have hsize : size < 2 ^ 32 := hsize
  simp only [Receiver.parseAnnounce, Announce.offer, List.take_left' (length_leEncode _ _),
    List.drop_left' (length_leEncode _ _), leDecode_leEncode, hdrop, hget, Octets.fit_bytes_append,
    Octets.fit_bytes, UInt32.toNat_ofNat', Offer.mk.injEq, and_true]
  omega

section Sending

variable (H : ActionHandler η) (e : Env)

theorem sendAck_eq (r : Receiver η) (acks : List Bytes) (result : UInt8) (trailing : Bytes) :
    ∃ ack ok, r.sendAck (context H e) acks result trailing = (acks ++ [ack], ok) ∧
      ackResult ack = result ∧
      ackRef ack = (if result == ackGaps then r.lastBlastCompleteTxCounter else
        r.announceTxCounter) ∧ ack.drop 6 = trailing := by
  refine ⟨_, _, rfl, rfl, ?_, List.drop_left' (by simp)⟩
  generalize (if result == ackGaps then r.lastBlastCompleteTxCounter else r.announceTxCounter) = ref
  have htake : (([PacketType.fileTransfer.code, result] ++ leEncode 4 ref.toNat ++ trailing).drop
      2).take 4 = leEncode 4 ref.toNat := by
    simp only [List.cons_append, List.nil_append, List.drop_succ_cons, List.drop_zero]
    exact List.take_left' (by simp)
  rw [ackRef, htake, leDecode_leEncode]
  apply UInt32.toNat_inj.mp
  have hlt : ref.toNat < 2 ^ 32 := ref.toNat_lt
  rw [UInt32.toNat_ofNat']
  omega

end Sending

/-- The counters are noted before the packet is handled. -/
theorem noteTxCounter_eq (r : Receiver η) (tx : UInt32) (payload : Bytes) :
    ∃ a b, Transfer.noteTxCounter r tx payload =
        { r with announceTxCounter := a, lastBlastCompleteTxCounter := b } ∧
      (payload.head? = some 0x00 → a = tx) ∧ (payload.head? = some 0x03 → b = tx) := by
  unfold Transfer.noteTxCounter
  split
  · exact ⟨_, _, rfl, by simp, by simp⟩
  · dsimp only
    split_ifs with h₃ h₀ h₀
    · exact ⟨tx, tx, rfl, fun _ => rfl, fun _ => rfl⟩
    · exact ⟨r.announceTxCounter, tx, rfl, fun h => absurd (Option.some.inj h) (by simpa using h₀),
        fun _ => rfl⟩
    · exact ⟨tx, r.lastBlastCompleteTxCounter, rfl, fun _ => rfl,
        fun h => absurd (Option.some.inj h) (by simpa using h₃)⟩
    · exact ⟨r.announceTxCounter, r.lastBlastCompleteTxCounter, rfl,
        fun h => absurd (Option.some.inj h) (by simpa using h₀),
        fun h => absurd (Option.some.inj h) (by simpa using h₃)⟩

/-! ## What the receiver answers -/

/-- The acknowledgements of a packet other than `ANNOUNCE`.  `blast` and `ending` say whether it is
a `BLAST_COMPLETE` or an `END`. -/
inductive AnswerTo (r : Receiver η) (blast ending : Prop) (ack : Bytes) : Prop
  | gaps (bitmap : Bytes) (hb : blast) (hr : ackResult ack = ackGaps)
      (href : ackRef ack = r.lastBlastCompleteTxCounter)
      (ht : ack.drop 6 = leEncode 2 bitmap.length ++ bitmap)
  | abort (hr : ackResult ack = ackAbort)
  | complete (hr : ackResult ack = ackComplete) (hs : r.state ≠ .idle)
      (hp : r.inCompletePhase = true ∨ ending)

/-- A state between the `ANNOUNCE` and the `END` of a transfer. -/
def State.Open (st : State) : Prop := st ≠ .idle ∧ st ≠ .verifying

/-- What a call other than an `ANNOUNCE` does: the receiver ends its transfer or stays with it, and
only an `END` opens the complete phase. -/
structure Serves (r : Receiver η) (blast ending : Prop) (r' : Receiver η) (acks : List Bytes) :
    Prop where
  stays : Ended r' ∨
    r'.offer = r.offer ∧ (r'.state = r.state ∨ r.state.Open ∧ r'.state ≠ .idle)
  phase : r'.inCompletePhase = true → r.inCompletePhase = true ∨ ending ∧ r'.state = .verifying
  answers : ∀ ack ∈ acks, AnswerTo r blast ending ack

namespace Serves

variable {r r' : Receiver η} {blast ending : Prop} {acks : List Bytes}

/-- A call that leaves the transfer alone. -/
theorem of_same (hoffer : r'.offer = r.offer)
    (hstate : r'.state = r.state ∨ r.state.Open ∧ r'.state ≠ .idle)
    (hphase : r'.inCompletePhase = r.inCompletePhase)
    (h : ∀ ack ∈ acks, AnswerTo r blast ending ack) : Serves r blast ending r' acks :=
  ⟨.inr ⟨hoffer, hstate⟩, fun hp => .inl (hphase ▸ hp), h⟩

theorem refl (r : Receiver η) : Serves r blast ending r [] :=
  of_same rfl (.inl rfl) rfl (by simp)

/-- A call that ends the transfer. -/
theorem of_ended (hr : Ended r') (h : ∀ ack ∈ acks, AnswerTo r blast ending ack) :
    Serves r blast ending r' acks :=
  ⟨.inl hr, fun hp => by simp [hr.2] at hp, h⟩

/-- The fields that the relation reads of the receiver before the call. -/
theorem congr {r₀ : Receiver η} (h : Serves r blast ending r' acks) (hoffer : r₀.offer = r.offer)
    (hstate : r₀.state = r.state) (hphase : r₀.inCompletePhase = r.inCompletePhase)
    (hblast : r₀.lastBlastCompleteTxCounter = r.lastBlastCompleteTxCounter) :
    Serves r₀ blast ending r' acks where
  stays := by
    rw [hoffer, hstate]
    exact h.stays
  phase := by
    rw [hphase]
    exact h.phase
  answers ack hack := by
    cases h.answers ack hack with
    | gaps bitmap hb hr href ht => exact .gaps bitmap hb hr (href.trans hblast.symm) ht
    | abort hr => exact .abort hr
    | complete hr hs hp => exact .complete hr (hstate ▸ hs) (hphase ▸ hp)

end Serves

section Calls

variable (H : ActionHandler η) (e : Env)

variable {H e} {blast ending : Prop}

/-- An acknowledgement joins those already sent. -/
theorem answers_sendAck {r : Receiver η} {acks : List Bytes}
    (hacks : ∀ ack ∈ acks, AnswerTo r blast ending ack) (r₁ : Receiver η) (result : UInt8)
    (trailing : Bytes)
    (hnew : ∀ ack, ackResult ack = result → ackRef ack = (if result == ackGaps then
      r₁.lastBlastCompleteTxCounter else r₁.announceTxCounter) → ack.drop 6 = trailing →
      AnswerTo r blast ending ack) :
    ∀ ack ∈ (r₁.sendAck (context H e) acks result trailing).1, AnswerTo r blast ending ack := by
  obtain ⟨new, ok, heq, hresult, href, ht⟩ := sendAck_eq H e r₁ acks result trailing
  intro ack hack
  rw [heq, List.mem_append, List.mem_singleton] at hack
  rcases hack with hack | rfl
  · exact hacks ack hack
  · exact hnew ack hresult href ht

theorem answers_gaps {r r₁ : Receiver η} {acks : List Bytes} (hb : blast)
    (hacks : ∀ ack ∈ acks, AnswerTo r blast ending ack)
    (hlast : r₁.lastBlastCompleteTxCounter = r.lastBlastCompleteTxCounter) (bitmap : Bytes) :
    ∀ ack ∈ (r₁.sendGapsAck (context H e) acks bitmap).1, AnswerTo r blast ending ack :=
  answers_sendAck hacks r₁ ackGaps _ fun _ hr href ht =>
    .gaps bitmap hb hr (href.trans hlast) ht

theorem answers_complete {r : Receiver η} (hbusy : r.state ≠ .idle)
    (hp : r.inCompletePhase = true ∨ ending) (r₁ : Receiver η) (action result : UInt8) :
    ∀ ack ∈ (r₁.sendAckComplete (context H e) [] action result).1, AnswerTo r blast ending ack :=
  answers_sendAck (by simp) r₁ ackComplete _ fun _ hr _ _ => .complete hr hbusy hp

/-- Aborting with some acknowledgements already sent. -/
theorem serves_abort {r : Receiver η} {acks : List Bytes}
    (hacks : ∀ ack ∈ acks, AnswerTo r blast ending ack) (r₁ : Receiver η) (reason : UInt8)
    (notify : Bool) :
    Serves r blast ending (r₁.abort (context H e) acks reason notify).1
      (r₁.abort (context H e) acks reason notify).2 := by
  refine .of_ended ⟨rfl, rfl⟩ ?_
  cases notify with
  | false => exact hacks
  | true => exact answers_sendAck (H := H) (e := e) hacks _ ackAbort _ fun _ hr _ _ => .abort hr

theorem serves_finishIncrement {r r₁ : Receiver η} {acks : List Bytes} (hb : blast)
    (hacks : ∀ ack ∈ acks, AnswerTo r blast ending ack) (hopen : r.state.Open)
    (hoffer : r₁.offer = r.offer) (hphase : r₁.inCompletePhase = r.inCompletePhase)
    (hlast : r₁.lastBlastCompleteTxCounter = r.lastBlastCompleteTxCounter) :
    Serves r blast ending (r₁.finishIncrement (context H e) acks).1
      (r₁.finishIncrement (context H e) acks).2.1 := by
  unfold Receiver.finishIncrement
  dsimp only
  split
  · exact .of_same hoffer (.inr ⟨hopen, by simp⟩) hphase
      (answers_gaps (H := H) (e := e) hb hacks hlast [])
  · exact .of_same hoffer (.inr ⟨hopen, by simp⟩) hphase
      (answers_gaps (H := H) (e := e) hb hacks hlast [])

theorem serves_writeIncrementToFlash {r r₁ : Receiver η} {acks : List Bytes} (hb : blast)
    (hacks : ∀ ack ∈ acks, AnswerTo r blast ending ack) (hopen : r.state.Open)
    (hbusy₁ : r₁.state ≠ .idle) (hoffer : r₁.offer = r.offer)
    (hphase : r₁.inCompletePhase = r.inCompletePhase)
    (hlast : r₁.lastBlastCompleteTxCounter = r.lastBlastCompleteTxCounter) :
    Serves r blast ending (r₁.writeIncrementToFlash (context H e) acks).1
      (r₁.writeIncrementToFlash (context H e) acks).2.1 := by
  have hsame : Serves r blast ending r₁ acks := .of_same hoffer (.inr ⟨hopen, hbusy₁⟩) hphase hacks
  unfold Receiver.writeIncrementToFlash
  split
  · next a h ha hh =>
    split
    · exact hsame
    dsimp only
    split
    · exact serves_finishIncrement hb hacks hopen hoffer hphase hlast
    split
    · exact serves_finishIncrement hb hacks hopen hoffer hphase hlast
    · exact serves_abort (H := H) (e := e) hacks (r₁.setHandler a _) abortFlashError true
  · exact hsame

theorem serves_handleBlastComplete (hb : blast) (r : Receiver η) (k : Nat) :
    Serves r blast ending (r.handleBlastComplete (context H e) [] k).1
      (r.handleBlastComplete (context H e) [] k).2.1 := by
  have hnone : ∀ ack ∈ ([] : List Bytes), AnswerTo r blast ending ack := by simp
  unfold Receiver.handleBlastComplete
  split
  · exact .refl r
  next hst =>
  have hstate : r.state = .receiving := by
    by_contra h
    simp [h] at hst
  have hopen : r.state.Open := by
    rw [hstate]
    exact ⟨by decide, by decide⟩
  dsimp only
  split_ifs
  · exact .of_same rfl (.inl rfl) rfl hnone
  · exact .of_same rfl (.inl rfl) rfl (answers_gaps (H := H) (e := e) hb hnone (by rfl) [])
  · exact serves_writeIncrementToFlash hb (answers_gaps (H := H) (e := e) hb hnone (by rfl) [])
      hopen (by simp) rfl rfl rfl
  · exact .of_same rfl (.inr ⟨hopen, by simp⟩) rfl
      (answers_gaps (H := H) (e := e) hb hnone (by rfl) [])
  · exact serves_abort (H := H) (e := e) hnone { r with lastActivityMs := e.now } abortTimeout true
  · exact .of_same rfl (.inr ⟨hopen, by simp⟩) rfl
      (answers_gaps (H := H) (e := e) hb hnone (by rfl) _)

theorem serves_handleEnd (he : ending) (r : Receiver η) :
    Serves r blast ending (r.handleEnd (context H e) []).1 (r.handleEnd (context H e) []).2.1 := by
  unfold Receiver.handleEnd
  split
  · exact .refl r
  next hst =>
  have hwait : r.state = .waitingEnd := by simpa using hst
  have hbusy : r.state ≠ .idle := by rw [hwait]; decide
  split
  · next a h ha hh =>
    dsimp -iota -proj only
    obtain ⟨h', result, hend⟩ : ∃ h' result, (context H e).handler.onEnd h = (h', result) :=
      ⟨_, _, rfl⟩
    rw [hend]
    dsimp only
    split
    · have hopen : r.state.Open := by
        rw [hwait]
        exact ⟨by decide, by decide⟩
      exact ⟨.inr ⟨rfl, .inr ⟨hopen, by simp [Receiver.setHandler]⟩⟩, fun _ => .inr ⟨he, rfl⟩,
        by simp⟩
    · exact .of_ended ⟨rfl, rfl⟩
        (answers_complete (H := H) (e := e) hbusy (.inr he) _ r.action result)
  · exact .refl r

theorem serves_handleAbort (r : Receiver η) (reason : UInt8) :
    Serves r blast ending (r.handleAbort (context H e) reason) [] := by
  unfold Receiver.handleAbort
  split
  · exact .refl r
  · exact .of_ended ⟨rfl, rfl⟩ (by simp)

theorem serves_handleFileData (r : Receiver η) (payload : Bytes) :
    Serves r blast ending (r.handleFileData (context H e) payload).1 [] := by
  rcases Transfer.handleFileData_cases (context H e) r payload with ⟨now, heq⟩ | h
  · rw [heq]
    exact .of_same rfl (.inl rfl) rfl (by simp)
  · obtain ⟨s, i, -, -, -, -, -, -, -, heq⟩ := h
    rw [heq]
    exact .of_same rfl (.inl rfl) rfl (by simp)

theorem serves_loop {r : Receiver η} (hr : r.inCompletePhase = true → r.state ≠ .idle) :
    Serves r blast ending (r.loop (context H e) []).1 (r.loop (context H e) []).2 := by
  obtain ⟨pending, restarted, hrestart⟩ := performRestartIfDue_eq H e r
  unfold Receiver.loop
  rw [hrestart]
  dsimp only
  split
  · next hphase =>
    have hcomplete : ∀ ack ∈ (({ r with
        restartPending := pending
        restarted := restarted } : Receiver η).sendAckComplete (context H e) [] r.completeAction
          r.completeResult).1, AnswerTo r blast ending ack :=
      answers_complete (hr hphase) (.inl hphase) _ _ _
    split
    · split
      · exact .of_ended ⟨rfl, rfl⟩ hcomplete
      · exact .of_same rfl (.inl rfl) rfl hcomplete
    · split
      · exact .of_ended ⟨rfl, rfl⟩ (by simp)
      · exact .of_same rfl (.inl rfl) rfl (by simp)
  · have hsame : Serves r blast ending
        { r with restartPending := pending, restarted := restarted } [] :=
      .of_same rfl (.inl rfl) rfl (by simp)
    have hnone : ∀ ack ∈ ([] : List Bytes), AnswerTo r blast ending ack := by simp
    split
    · exact hsame
    · split
      · split
        · exact serves_abort hnone _ _ _
        · exact hsame
      · exact hsame
      · exact hsame
      · split
        · exact serves_abort hnone _ _ _
        · exact hsame

/-- A control packet other than `ANNOUNCE`. -/
theorem serves_handleFileTransfer (r : Receiver η) (payload : Bytes)
    (hp : payload.head? ≠ some 0x00) :
    Serves r (payload.head? = some 0x03) (payload.head? = some 0x01)
      (r.handleFileTransfer (context H e) [] payload).1
      (r.handleFileTransfer (context H e) [] payload).2.1 := by
  unfold Receiver.handleFileTransfer
  split
  · exact .refl r
  next phase body =>
  dsimp only
  have htouch {blast ending : Prop} {r' : Receiver η} {acks : List Bytes}
      (h : Serves { r with lastActivityMs := (context H e).now } blast ending r' acks) :
      Serves r blast ending r' acks := h.congr rfl rfl rfl rfl
  apply htouch
  split_ifs with h₀ h₁ h₂ h₃ h₄ h₅ h₆ h₇
  · exact absurd (by simpa using h₀) hp
  · exact .refl _
  · exact serves_handleEnd (by simpa using h₂) _
  · exact .refl _
  · exact serves_handleAbort _ _
  · exact .refl _
  · exact serves_handleBlastComplete (by simpa using h₆) _ _
  · exact .refl _
  · exact .refl _

/-! ### `ANNOUNCE` -/

/-- The answer to an `ANNOUNCE` of the file `o`. -/
inductive AnnounceAnswer (r : Receiver η) (o : Offer) (r' : Receiver η) (ack : Bytes) : Prop
  | reject (hr : ackResult ack = ackReject) (hstate : r'.state = r.state)
      (ho : r.state = .idle ∨ r'.offer = r.offer)
      (hphase : r'.inCompletePhase = true → r.inCompletePhase = true)
  | again (hr : ackResult ack = ackAccept) (href : ackRef ack = r.announceTxCounter)
      (hopen : r.state.Open) (ho : r.offer = o) (h : r' = r)
  | begun (hr : ackResult ack = ackAccept) (href : ackRef ack = r.announceTxCounter)
      (hidle : r.state = .idle) (ho : r'.state = .idle ∨ r'.offer = o)
      (ht : r'.state = .receiving → r'.chunkPayloadSize < 2 ^ 16 ∧ ack.drop 6 =
        leEncode 2 r'.chunkPayloadSize ++ [UInt8.ofNat r'.bufferSizeKb, r'.action])
      (hphase : r'.inCompletePhase = true → r.inCompletePhase = true)

theorem announceAnswer_reject {r r₁ : Receiver η} {o : Offer} {action reason : UInt8}
    (hstate : r₁.state = r.state) (ho : r.state = .idle ∨ r₁.offer = r.offer)
    (hphase : r₁.inCompletePhase = true → r.inCompletePhase = true) :
    ∃ ack, (r₁.sendAckReject (context H e) [] action reason).1 = [ack] ∧
      AnnounceAnswer r o r₁ ack := by
  obtain ⟨ack, ok, heq, hresult, -⟩ := sendAck_eq H e r₁ [] ackReject [action, reason]
  exact ⟨ack, congrArg Prod.fst heq, .reject hresult hstate ho hphase⟩

theorem beginTransfer_answer {r r₁ : Receiver η} (a : Announce) {chunkSize : Nat} (kb : Nat)
    (hchunk : chunkSize < 2 ^ 16) (hidle : r.state = .idle) (hphase : r₁.inCompletePhase = r.inCompletePhase)
    (htx : r₁.announceTxCounter = r.announceTxCounter) :
    ∃ ack, (r₁.beginTransfer (context H e) [] a chunkSize kb).2.1 = [ack] ∧
      AnnounceAnswer r a.offer (r₁.beginTransfer (context H e) [] a chunkSize kb).1 ack := by
  unfold Receiver.beginTransfer
  dsimp only
  split
  · exact announceAnswer_reject (H := H) (by simp [Receiver.reset, hidle]) (.inl hidle)
      (by simp [Receiver.reset])
  · set s := ({ r₁ with
      activeHandler := some a.action
      fileSize := a.fileSize.toNat
      chunkPayloadSize := chunkSize
      action := a.action
      fileId := a.fileId
      lastAnnounceMd5 := a.md5
      bufferSizeKb := kb
      geometry := Geometry.ofTransfer a.fileSize.toNat chunkSize kb
      currentIncrement := 0
      retransmitRound := 0
      incrementWritten := false
      incrementBuf := IncrementBuffer.reset
        ((Geometry.ofTransfer a.fileSize.toNat chunkSize kb).chunksInIncrement 0)
        ((Geometry.ofTransfer a.fileSize.toNat chunkSize kb).chunksInIncrement 0 * chunkSize)
      state := .announced } : Receiver η)
    obtain ⟨ack, ok, heq, hresult, href, ht⟩ := sendAck_eq H e s [] ackAccept
      (leEncode 2 s.chunkPayloadSize ++ [UInt8.ofNat s.bufferSizeKb, s.action])
    have hacks : (s.sendAckAccept (context H e) []).1 = [ack] := congrArg Prod.fst heq
    have href : ackRef ack = r.announceTxCounter := href.trans htx
    split
    · exact ⟨ack, hacks, .begun hresult href hidle (.inr rfl) (fun _ => ⟨hchunk, ht⟩)
        fun h => hphase ▸ h⟩
    · exact ⟨ack, hacks, .begun hresult href hidle (.inl rfl) (by simp [Receiver.reset])
        (by simp [Receiver.reset])⟩

theorem handleAnnounce_answer (r : Receiver η) (a : Announce) :
    ∃ ack, (r.handleAnnounce (context H e) [] a).2.1 = [ack] ∧
      AnnounceAnswer r a.offer (r.handleAnnounce (context H e) [] a).1 ack := by
  have hreject (reason : UInt8) :
      ∃ ack, (r.sendAckReject (context H e) [] a.action reason).1 = [ack] ∧
      AnnounceAnswer r a.offer r ack := announceAnswer_reject rfl (.inr rfl) id
  unfold Receiver.handleAnnounce
  dsimp -iota -proj only
  split_ifs with h₁ h₂ h₃ h₄ h₅ h₆
  · exact hreject _
  · exact hreject _
  · -- the same file again: the receiver repeats its `ACCEPT`
    simp only [Bool.and_eq_true, Receiver.sameAnnounce, beq_iff_eq] at h₄
    obtain ⟨⟨⟨⟨hid, hsize⟩, hact⟩, hmd5⟩, hstate⟩ := h₄
    have hopen : r.state.Open := ⟨fun h => by simp [h] at hstate, fun h => by simp [h] at hstate⟩
    obtain ⟨ack, ok, heq, hresult, href, -⟩ := sendAck_eq H e r [] ackAccept
      (leEncode 2 r.chunkPayloadSize ++ [UInt8.ofNat r.bufferSizeKb, r.action])
    refine ⟨ack, congrArg Prod.fst heq, .again hresult href hopen ?_ rfl⟩
    simp [Receiver.offer, Announce.offer, hid, hsize, hact, hmd5]
  · exact hreject _
  · exact hreject _
  · exact hreject _
  · have hidle : r.state = .idle := by
      by_contra hne
      simp [hne] at h₃
    split
    · exact hreject _
    · next h hh =>
      obtain ⟨h', response, kb, hann⟩ : ∃ h' response kb,
          (context H e).handler.onAnnounce h a.fileSize a.md5 a.chunkSize a.action a.fileId
            (UInt16.ofNat maxIncrementKb) = (h', response, kb) := ⟨_, _, _, rfl⟩
      rw [hann]
      dsimp only
      split_ifs
      · exact announceAnswer_reject (H := H) rfl (.inl hidle) id
      · exact announceAnswer_reject (H := H) rfl (.inl hidle) id
      · exact beginTransfer_answer a _ (UInt16.toNat_lt _) hidle rfl rfl

variable (H e) in
/-- An `ANNOUNCE` of the right length is handled. -/
theorem handleFileTransfer_announce (r : Receiver η) (acks : List Bytes) {body : Bytes}
    (hlen : body.length = 35) : r.handleFileTransfer (context H e) acks (0x00 :: body) =
      ({ r with lastActivityMs := e.now } : Receiver η).handleAnnounce (context H e) acks
        (Receiver.parseAnnounce body) := by
  rw [Receiver.handleFileTransfer]
  simp only [beq_self_eq_true, if_true, hlen]
  rfl

end Calls

end FileReceiver

end EspTree
