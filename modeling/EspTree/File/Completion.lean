import EspTree.File.Runs

/-!
# Finishing a file

When `on_end` succeeds and the handler wants a restart, the receiver stays in `VERIFYING`
and repeats its `COMPLETE` acknowledgement from `loop`, once a second; after the fifth
attempt it schedules the restart.  While this goes on every other call is live.

The finished file is safe from all of them except two: a `FILE_ABORT` packet and
`abort()` do not look at `in_complete_phase_`.  They call `on_abort` on a handler that
has finished its file, and `reset_` takes the pending restart with it.

`logging` writes down what the handler saw.  The history variable of a run is the last
finished file, with the acknowledgements attempted for it.
-/

namespace EspTree

open Wire

namespace FileReceiver

variable {η : Type}

/-! ## What the handler saw -/

/-- A call of an action handler, with its answer. -/
inductive HandlerCall
  | announced (accepted : Bool)
  | wrote (sequence : Nat)
  | ended (result : UInt8) (wantsRestart : Bool)
  | aborted (reason : UInt8)
  deriving DecidableEq, Repr

/-- The handler `H`, with its calls written down. -/
def logging (H : ActionHandler η) : ActionHandler (η × List HandlerCall) where
  onAnnounce h fileSize md5 chunkSize action fileId kb :=
    let (h', response, kb) := H.onAnnounce h.1 fileSize md5 chunkSize action fileId kb
    ((h', h.2 ++ [.announced response.accepted]), response, kb)
  onData h sequence data :=
    let (h', accepted) := H.onData h.1 sequence data
    ((h', h.2 ++ [.wrote sequence]), accepted)
  onEnd h :=
    let (h', result) := H.onEnd h.1
    ((h', h.2 ++ [.ended result (H.wantsRestartAfterComplete h')]), result)
  onAbort h reason := (H.onAbort h.1 reason, h.2 ++ [.aborted reason])
  isReceiving h := H.isReceiving h.1
  wantsRestartAfterComplete h := H.wantsRestartAfterComplete h.1
  setMaxChunkSize h n := (H.setMaxChunkSize h.1 n, h.2)

/-- `on_end` returned success and the handler wants a restart. -/
def finishedCall : HandlerCall := .ended completeSuccess true

/-- The handler has taken up another file since it last finished one. -/
def Open (log : List HandlerCall) : Prop :=
  ∀ before mid, log = before ++ finishedCall :: mid → .announced true ∈ mid

/-- No finished file was aborted: between the end of a file and an `on_abort` there is the
announce of another one. -/
def Uninterrupted (log : List HandlerCall) : Prop :=
  ∀ before mid reason after, log = before ++ finishedCall :: (mid ++ .aborted reason :: after) →
    .announced true ∈ mid

section Logs

variable {log new : List HandlerCall} {call : HandlerCall}

/-- A call other than the one that finishes the file leaves it open. -/
theorem Open.concat (h : Open log) (hc : call ≠ finishedCall) : Open (log ++ [call]) := by
  intro before mid heq
  rcases List.eq_nil_or_concat' mid with rfl | ⟨mid, c, rfl⟩
  · exact absurd (List.append_inj_right' heq rfl) (by simpa using hc)
  · rw [← List.cons_append, ← List.append_assoc] at heq
    exact List.mem_append_left _ (h before mid (List.append_inj_left' heq rfl))

/-- A file that is announced is open. -/
theorem Open.announce (log : List HandlerCall) : Open (log ++ [.announced true]) := by
  intro before mid heq
  rcases List.eq_nil_or_concat' mid with rfl | ⟨mid, c, rfl⟩
  · exact absurd (List.append_inj_right' heq rfl) (by simp [finishedCall])
  · rw [← List.cons_append, ← List.append_assoc] at heq
    have hc := List.append_inj_right' heq rfl
    simp only [List.cons.injEq, and_true] at hc
    simp [← hc]

/-- Only `on_abort` can interrupt, and not while another file is open. -/
theorem Uninterrupted.concat (h : Uninterrupted log)
    (hc : ∀ reason, call = .aborted reason → Open log) : Uninterrupted (log ++ [call]) := by
  intro before mid reason after heq
  rcases List.eq_nil_or_concat' after with rfl | ⟨after, c, rfl⟩
  · rw [← List.cons_append, ← List.append_assoc] at heq
    have hcall := List.append_inj_right' heq rfl
    simp only [List.cons.injEq, and_true] at hcall
    exact hc reason hcall before mid (List.append_inj_left' heq rfl)
  · rw [← List.cons_append, ← List.append_assoc, ← List.cons_append, ← List.append_assoc] at heq
    have hlog := List.append_inj_left' heq rfl
    exact h before mid reason after (by simpa using hlog)

end Logs

/-! ## Calls outside of the complete phase -/

/-- The calls that the handler for `action` has seen. -/
def Receiver.calls (r : Receiver (η × List HandlerCall)) (action : UInt8) : List HandlerCall :=
  ((r.handlers action).map (·.2)).getD []

theorem calls_of_handlers {r : Receiver (η × List HandlerCall)} {a : UInt8}
    {h : η × List HandlerCall} (ha : r.handlers a = some h) : r.calls a = h.2 := by
  simp [Receiver.calls, ha]

theorem calls_congr {r r' : Receiver (η × List HandlerCall)} (h : r'.handlers = r.handlers)
    (a : UInt8) : r'.calls a = r.calls a := by
  rw [Receiver.calls, h, Receiver.calls]

theorem calls_setHandler (r : Receiver (η × List HandlerCall)) (a b : UInt8)
    (h : η × List HandlerCall) : (r.setHandler a h).calls b = if b = a then h.2 else r.calls b := by
  by_cases hb : b = a <;> simp [Receiver.calls, Receiver.setHandler, hb]

/-- The receiver is not repeating `COMPLETE`, and the active handler has a file open. -/
structure Steady (r : Receiver (η × List HandlerCall)) : Prop where
  off : r.inCompletePhase = false
  logs : ∀ a, Uninterrupted (r.calls a)
  opened : ∀ a, r.activeHandler = some a → Open (r.calls a)

/-- The handlers of `r'` have seen more than those of `r`, but no end of a file. -/
def Unfinished (r r' : Receiver (η × List HandlerCall)) : Prop :=
  ∀ a, ∃ new, r'.calls a = r.calls a ++ new ∧ finishedCall ∉ new

theorem Unfinished.of_calls {r r' : Receiver (η × List HandlerCall)}
    (h : ∀ a, r'.calls a = r.calls a) : Unfinished r r' :=
  fun a => ⟨[], by simp [h a], by simp⟩

/-- Two steps that finish no file finish none together. -/
theorem Unfinished.trans {r₁ r₂ r₃ : Receiver (η × List HandlerCall)} (h₁ : Unfinished r₁ r₂)
    (h₂ : Unfinished r₂ r₃) : Unfinished r₁ r₃ := by
  intro a
  obtain ⟨new, hlog, hnew⟩ := h₁ a
  obtain ⟨new', hlog', hnew'⟩ := h₂ a
  exact ⟨new ++ new', by rw [hlog', hlog, List.append_assoc], by simp [hnew, hnew']⟩

/-- A call that finishes no file and leaves a steady receiver steady. -/
structure Calm (r r' : Receiver (η × List HandlerCall)) : Prop where
  steady : Steady r → Steady r'
  unfinished : Unfinished r r'

/-- The fields that `Calm` reads. -/
def phaseView (r : Receiver (η × List HandlerCall)) :=
  (r.inCompletePhase, r.handlers, r.activeHandler)

namespace Calm

variable {r r' r₁ r₂ r₃ : Receiver (η × List HandlerCall)}

theorem trans (h₁ : Calm r₁ r₂) (h₂ : Calm r₂ r₃) : Calm r₁ r₃ :=
  ⟨h₂.steady ∘ h₁.steady, h₁.unfinished.trans h₂.unfinished⟩

/-- Changes that the handlers do not see. -/
theorem of_calls (hoff : r'.inCompletePhase = r.inCompletePhase)
    (hcalls : ∀ a, r'.calls a = r.calls a)
    (hact : ∀ a, r'.activeHandler = some a → r.activeHandler = some a ∨ Open (r.calls a)) :
    Calm r r' := by
  constructor
  · intro hs
    refine ⟨hoff.trans hs.off, fun a => by rw [hcalls]; exact hs.logs a, fun a ha => ?_⟩
    rw [hcalls]
    rcases hact a ha with hact | hopen
    · exact hs.opened a hact
    · exact hopen
  · exact .of_calls hcalls

/-- Changes outside of these fields. -/
theorem of_view (he : phaseView r' = phaseView r) : Calm r r' := by
  simp only [phaseView, Prod.mk.injEq] at he
  obtain ⟨hoff, hh, hact⟩ := he
  exact of_calls hoff (calls_congr hh)
    fun a ha => .inl (hact ▸ ha)

/-- Nothing has been called. -/
theorem refl (r : Receiver (η × List HandlerCall)) : Calm r r := of_view rfl

/-- `reset_` keeps the handlers. -/
theorem reset (r : Receiver (η × List HandlerCall)) : Calm r r.reset := by
  constructor
  · intro hs
    exact ⟨rfl, hs.logs, by rintro a ⟨⟩⟩
  · exact .of_calls fun _ => rfl

/-- A handler sees one more call, which is neither the end of a file nor an interruption. -/
theorem setHandler {a : UInt8} {h : η × List HandlerCall} {call : HandlerCall}
    (hlog : h.2 = r.calls a ++ [call]) (hcall : call ≠ finishedCall)
    (hopen : Steady r → ∀ reason, call = .aborted reason → Open (r.calls a)) :
    Calm r (r.setHandler a h) := by
  constructor
  · intro hs
    refine ⟨hs.off, fun b => ?_, fun b hb => ?_⟩
    · rw [calls_setHandler]
      split
      · rw [hlog]
        exact (hs.logs a).concat (hopen hs)
      · exact hs.logs b
    · rw [calls_setHandler]
      split
      · next hab =>
        rw [hlog]
        exact (hs.opened a (hab ▸ hb)).concat hcall
      · exact hs.opened b hb
  · intro b
    rw [calls_setHandler]
    split
    · next hab => exact ⟨[call], by rw [hlog, hab], by simpa using Ne.symm hcall⟩
    · exact ⟨[], by simp, by simp⟩

end Calm

/-- The receiver repeats `COMPLETE`, with `attempts` of them behind it. -/
structure Completing (r : Receiver (η × List HandlerCall)) (attempts : Nat) : Prop where
  on : r.inCompletePhase = true
  verifying : r.state = .verifying
  logs : ∀ a, Uninterrupted (r.calls a)
  left : 0 < r.completeAckRemaining
  count : attempts + r.completeAckRemaining = Receiver.completeAckRetries

/-- `on_end` has finished the file of the active handler, and the complete phase begins. -/
def Finishes (r r' : Receiver (η × List HandlerCall)) : Prop :=
  ∃ a, r.activeHandler = some a ∧ r'.calls a = r.calls a ++ [finishedCall] ∧
    (∀ b, b ≠ a → r'.calls b = r.calls b) ∧ r'.inCompletePhase = true ∧
    r'.state = .verifying ∧ r'.completeAckRemaining = Receiver.completeAckRetries

/-- A step that finishes the file begins the phase with its five attempts. -/
theorem Finishes.completing {r r' : Receiver (η × List HandlerCall)} (h : Finishes r r')
    (hs : Steady r) : Completing r' 0 := by
  obtain ⟨a, -, ha, hb, hon, hver, hleft⟩ := h
  refine ⟨hon, hver, fun b => ?_, by rw [hleft]; decide, by rw [hleft]; rfl⟩
  by_cases hba : b = a
  · rw [hba, ha]
    exact (hs.logs a).concat (by simp [finishedCall])
  · rw [hb b hba]
    exact hs.logs b

theorem handlers_of_active? {r : Receiver η} {a : UInt8} {h : η} (ha : r.activeHandler = some a)
    (hact : r.active? = some h) : r.handlers a = some h := by
  simpa [Receiver.active?, ha] using hact

section Calls

variable (H : ActionHandler η) (e : Env)

/-- `on_abort` reaches the active handler, which has a file open. -/
theorem calm_notifyAbort (r : Receiver (η × List HandlerCall)) (reason : UInt8) :
    Calm r (r.notifyAbort (context (logging H) e) reason) := by
  unfold Receiver.notifyAbort
  split
  · next a h ha hact =>
    have hlog := calls_of_handlers (handlers_of_active? ha hact)
    have hcall : ((context (logging H) e).handler.onAbort h reason).2 =
        r.calls a ++ [.aborted reason] := by
      rw [hlog]
      rfl
    exact .setHandler hcall (by simp [finishedCall]) fun hs _ _ => hs.opened a ha
  · exact .refl r

/-- To give up a transfer is calm as long as the file is not finished. -/
theorem calm_abandon (r : Receiver (η × List HandlerCall)) (reason : UInt8) :
    Calm r (r.notifyAbort (context (logging H) e) reason).reset :=
  (calm_notifyAbort H e r reason).trans (.reset _)

theorem calm_abort (r : Receiver (η × List HandlerCall)) (acks : List Bytes) (reason : UInt8)
    (notifySender : Bool) :
    Calm r (r.abort (context (logging H) e) acks reason notifySender).1 :=
  calm_abandon H e r reason

/-- A write loop that the active handler sees. -/
theorem calm_flashPass {r : Receiver (η × List HandlerCall)} {a : UInt8}
    {h : η × List HandlerCall} (ha : r.handlers a = some h) (slices : List (Nat × Bytes)) :
    Calm r (r.setHandler a (flashPass (logging H) h slices).1) := by
  induction slices generalizing r h with
  | nil =>
    refine .of_view ?_
    simp only [phaseView, Receiver.setHandler, flashPass, Prod.mk.injEq, true_and, and_true]
    exact Function.update_eq_self_iff.mpr ha.symm
  | cons slice rest ih =>
    obtain ⟨sequence, data⟩ := slice
    rcases hd : (logging H).onData h sequence data with ⟨h₁, accepted⟩
    have hlog : h₁.2 = h.2 ++ [.wrote sequence] := by
      have := congrArg (·.1.2) hd
      simpa [logging] using this.symm
    have hone : Calm r (r.setHandler a h₁) :=
      .setHandler (by rw [calls_of_handlers ha, hlog]) (by simp [finishedCall]) (by simp)
    rw [flashPass, hd]
    cases accepted with
    | false => exact hone
    | true =>
      have hrest := ih (r := r.setHandler a h₁) (h := h₁) (by simp [Receiver.setHandler])
      simpa [Receiver.setHandler] using hone.trans hrest

theorem calm_finishIncrement (r : Receiver (η × List HandlerCall)) (acks : List Bytes) :
    Calm r (r.finishIncrement (context (logging H) e) acks).1 := by
  unfold Receiver.finishIncrement
  dsimp only
  split <;> exact .of_view rfl

theorem calm_writeIncrementToFlash (r : Receiver (η × List HandlerCall)) (acks : List Bytes) :
    Calm r (r.writeIncrementToFlash (context (logging H) e) acks).1 := by
  unfold Receiver.writeIncrementToFlash
  split
  · next a h ha hact =>
    have hh := handlers_of_active? ha hact
    split
    · exact .refl r
    · dsimp only
      generalize r.incrementSlices _ _ 0 = slices
      have hfirst := calm_flashPass H hh slices
      split
      · exact hfirst.trans (calm_finishIncrement H e _ _)
      · have hsecond := hfirst.trans
          (calm_flashPass H (a := a) (h := (flashPass (logging H) h slices).1)
            (by simp [Receiver.setHandler]) slices)
        simp only [Receiver.setHandler, Function.update_idem] at hsecond
        split
        · exact hsecond.trans (calm_finishIncrement H e _ _)
        · exact hsecond.trans (calm_abort H e _ acks abortFlashError true)
  · exact .refl r

/-- A `BLAST_COMPLETE` finishes no file. -/
theorem calm_handleBlastComplete (r : Receiver (η × List HandlerCall)) (acks : List Bytes)
    (increment : Nat) :
    Calm r (r.handleBlastComplete (context (logging H) e) acks increment).1 := by
  unfold Receiver.handleBlastComplete
  dsimp only
  split_ifs
  · exact .refl r
  · exact .of_view rfl
  · exact .of_view rfl
  · refine .trans ?_ (calm_writeIncrementToFlash H e _ _)
    exact .of_view rfl
  · exact .of_view rfl
  · refine .trans ?_ (calm_abort H e _ acks abortTimeout true)
    exact .of_view rfl
  · exact .of_view rfl

/-- A transfer begins with the handler that has just accepted the announce. -/
theorem calm_beginTransfer {r : Receiver (η × List HandlerCall)} (acks : List Bytes)
    (a : Announce) (chunkSize bufferKb : Nat) (hopen : Open (r.calls a.action)) :
    Calm r (r.beginTransfer (context (logging H) e) acks a chunkSize bufferKb).1 := by
  have hbegin {r' : Receiver (η × List HandlerCall)}
      (hoff : r'.inCompletePhase = r.inCompletePhase) (hh : r'.handlers = r.handlers)
      (hact : r'.activeHandler = some a.action) : Calm r r' := by
    refine .of_calls hoff (calls_congr hh) fun b hb => ?_
    obtain rfl : a.action = b := Option.some_inj.mp (hact.symm.trans hb)
    exact .inr hopen
  unfold Receiver.beginTransfer
  dsimp only
  split_ifs
  · refine .trans ?_ (calm_abandon H e _ abortFlashError)
    exact hbegin rfl rfl rfl
  · exact hbegin rfl rfl rfl
  · refine .trans ?_ (calm_abandon H e _ abortSendFailure)
    exact hbegin rfl rfl rfl

/-- An announcement is refused in the complete phase, and begins another file outside of it. -/
theorem calm_handleAnnounce (r : Receiver (η × List HandlerCall)) (acks : List Bytes)
    (a : Announce) : Calm r (r.handleAnnounce (context (logging H) e) acks a).1 := by
  unfold Receiver.handleAnnounce
  dsimp -iota -proj only
  split_ifs
  · exact .refl r
  · exact .refl r
  · exact .refl r
  · exact .refl r
  · exact .refl r
  · exact .refl r
  · split
    · exact .refl r
    · next h hh =>
      obtain ⟨h', response, kb, hann⟩ : ∃ h' response kb,
          (context (logging H) e).handler.onAnnounce h a.fileSize a.md5 a.chunkSize a.action
            a.fileId (UInt16.ofNat maxIncrementKb) = (h', response, kb) := ⟨_, _, _, rfl⟩
      rw [hann]
      have hlog : h'.2 = r.calls a.action ++ [.announced response.accepted] := by
        simp only [context, logging, Prod.mk.injEq] at hann
        rw [calls_of_handlers hh, ← hann.1, ← hann.2.1]
      have hcall : Calm r (r.setHandler a.action h') :=
        .setHandler hlog (by simp [finishedCall]) (by simp)
      have hopen (hacc : response.accepted = true) :
          Open ((r.setHandler a.action h').calls a.action) := by
        rw [calls_setHandler, if_pos rfl, hlog, hacc]
        exact .announce _
      dsimp only
      split_ifs with hacc hchunk
      · exact hcall
      · have habort : ((context (logging H) e).handler.onAbort h' abortFlashError).2 =
            (r.setHandler a.action h').calls a.action ++ [.aborted abortFlashError] := by
          rw [calls_setHandler, if_pos rfl]
          rfl
        exact hcall.trans (.setHandler habort (by simp [finishedCall])
          fun _ _ _ => hopen (by simpa using hacc))
      · exact hcall.trans (calm_beginTransfer H e acks a _ _ (hopen (by simpa using hacc)))

/-- Data finishes no file. -/
theorem calm_handleFileData (r : Receiver (η × List HandlerCall)) (payload : Bytes) :
    Calm r (r.handleFileData (context (logging H) e) payload).1 := by
  unfold Receiver.handleFileData
  dsimp only
  split_ifs <;> exact .of_view rfl

theorem calm_handleAbort (r : Receiver (η × List HandlerCall)) (reason : UInt8) :
    Calm r (r.handleAbort (context (logging H) e) reason) := by
  unfold Receiver.handleAbort
  split
  · exact .refl r
  · exact calm_abandon H e r reason

theorem calls_setMaxChunkSize (r : Receiver (η × List HandlerCall)) (maxChunk : UInt16)
    (a : UInt8) : (r.setMaxChunkSize (logging H) maxChunk).calls a = r.calls a := by
  by_cases ha : a = actionOtaFlash
  · subst ha
    cases hh : r.handlers actionOtaFlash <;>
      simp [Receiver.calls, Receiver.setMaxChunkSize, hh, logging]
  · simp [Receiver.calls, Receiver.setMaxChunkSize, ha]

theorem calm_setMaxChunkSize (r : Receiver (η × List HandlerCall)) (maxChunk : UInt16) :
    Calm r (r.setMaxChunkSize (logging H) maxChunk) :=
  .of_calls rfl (calls_setMaxChunkSize H r maxChunk) fun _ ha => .inl ha

/-- The restart itself is beyond what the receiver has to do. -/
theorem calm_performRestartIfDue (r : Receiver (η × List HandlerCall)) :
    Calm r (r.performRestartIfDue (context (logging H) e)) := by
  unfold Receiver.performRestartIfDue
  split <;> exact .of_view rfl

/-- `loop` outside of the complete phase. -/
theorem calm_loop {r : Receiver (η × List HandlerCall)} (acks : List Bytes)
    (hoff : r.inCompletePhase = false) : Calm r (r.loop (context (logging H) e) acks).1 := by
  have hdue := calm_performRestartIfDue H e r
  unfold Receiver.loop
  dsimp only
  generalize hr : r.performRestartIfDue (context (logging H) e) = r' at hdue ⊢
  have hoff' : r'.inCompletePhase = false := by
    rw [← hr, Receiver.performRestartIfDue]
    split <;> exact hoff
  rw [if_neg (by simp [hoff'])]
  repeat' split
  all_goals first
    | exact hdue
    | exact hdue.trans (calm_abort H e _ acks abortTimeout true)

/-- `handle_end_` is calm or finishes a file; then it sends nothing. -/
theorem handleEnd_cases (r : Receiver (η × List HandlerCall)) (acks : List Bytes) :
    Calm r (r.handleEnd (context (logging H) e) acks).1 ∨
      Finishes r (r.handleEnd (context (logging H) e) acks).1 ∧
        (r.handleEnd (context (logging H) e) acks).2.1 = acks := by
  unfold Receiver.handleEnd
  split
  · exact .inl (.refl r)
  · split
    · next a h ha hact =>
      have hh : r.handlers a = some h := handlers_of_active? ha hact
      obtain ⟨h', result, hend⟩ : ∃ h' result,
          (context (logging H) e).handler.onEnd h = (h', result) := ⟨_, _, rfl⟩
      have hlog : h'.2 = r.calls a ++ [.ended result (H.wantsRestartAfterComplete h'.1)] := by
        simp only [context, logging, Prod.mk.injEq] at hend
        obtain ⟨rfl, rfl⟩ := hend
        rw [calls_of_handlers hh]
      dsimp -iota -proj only
      rw [hend]
      dsimp only
      split
      · next hdone =>
        have hdone' : result = completeSuccess ∧ H.wantsRestartAfterComplete h'.1 = true := by
          simpa [context, logging] using hdone
        obtain ⟨rfl, hwants⟩ := hdone'
        refine .inr ⟨⟨a, ha, ?_, ?_, rfl, rfl, rfl⟩, rfl⟩
        · change (r.setHandler a h').calls a = _
          rw [calls_setHandler, if_pos rfl, hlog, hwants]
          rfl
        · intro b hb
          change (r.setHandler a h').calls b = _
          rw [calls_setHandler, if_neg hb]
      · next hdone =>
        refine .inl (.trans ?_ (.reset _))
        have hcall : Calm r (r.setHandler a h') := by
          refine .setHandler hlog ?_ (by simp)
          intro heq
          simp only [finishedCall, HandlerCall.ended.injEq] at heq
          obtain ⟨rfl, hwants⟩ := heq
          exact hdone (by simpa [context, logging] using hwants)
        exact hcall.trans (.of_view rfl)
    · exact .inl (.refl r)

end Calls

/-! ## The complete phase -/

/-- An acknowledgement with the result `COMPLETE`. -/
def isCompleteAck (ack : Bytes) : Bool := ack.getD 1 0 == ackComplete

theorem isCompleteAck_sendAck (H : ActionHandler η) (e : Env) (r : Receiver η) (acks : List Bytes)
    (result : UInt8) (trailing : Bytes) :
    ∃ ack, (r.sendAck (context H e) acks result trailing).1 = acks ++ [ack] ∧
      isCompleteAck ack = (result == ackComplete) :=
  ⟨_, rfl, by simp [isCompleteAck]⟩

section Phase

variable (H : ActionHandler η) (e : Env) {r : Receiver (η × List HandlerCall)} {n : Nat}

theorem Completing.congr {r' : Receiver (η × List HandlerCall)} (h : Completing r n)
    (he : phaseView r' = phaseView r) (hstate : r'.state = r.state)
    (hleft : r'.completeAckRemaining = r.completeAckRemaining) : Completing r' n := by
  simp only [phaseView, Prod.mk.injEq] at he
  obtain ⟨hoff, hh, -⟩ := he
  refine ⟨hoff.trans h.on, hstate.trans h.verifying, fun a => ?_, hleft ▸ h.left, hleft ▸ h.count⟩
  rw [calls_congr hh]
  exact h.logs a

/-- A well-formed `FILE_ABORT`. -/
def isAbortPacket (payload : Bytes) : Bool := payload.length == 2 && payload.head? == some 0x02

/-- A verifying receiver rejects every announce. -/
theorem handleAnnounce_verifying {π : Type} (x : Context η π) {r : Receiver η} (p : π)
    (a : Announce) (hstate : r.state = .verifying) :
    ∃ reason, r.handleAnnounce x p a = (r, r.sendAckReject x p a.action reason) := by
  unfold Receiver.handleAnnounce
  dsimp only
  split_ifs with h₁ h₂ h₃ h₄
  · exact ⟨_, rfl⟩
  · exact ⟨_, rfl⟩
  · simp [hstate] at h₄
  · exact ⟨_, rfl⟩
  all_goals simp [hstate] at h₃

/-- While the receiver is verifying, a packet other than `FILE_ABORT` is answered with a
`REJECT` or not at all. -/
theorem handleFileTransfer_verifying (acks : List Bytes) (payload : Bytes)
    (hstate : r.state = .verifying) (habort : isAbortPacket payload = false) :
    ∃ now new ok, r.handleFileTransfer (context (logging H) e) acks payload =
      ({ r with lastActivityMs := now }, acks ++ new, ok) ∧
        ∀ ack ∈ new, isCompleteAck ack = false := by
  have hnone (now : UInt32) : ∃ now' new ok,
      ({ r with lastActivityMs := now }, acks, false) =
        (({ r with lastActivityMs := now' }, acks ++ new, ok) : Receiver _ × List Bytes × Bool) ∧
        ∀ ack ∈ new, isCompleteAck ack = false := ⟨now, [], false, by simp, by simp⟩
  unfold Receiver.handleFileTransfer
  split
  · exact hnone r.lastActivityMs
  · next phase body =>
    dsimp only
    generalize hr : ({ r with lastActivityMs := (context (logging H) e).now } : Receiver _) = r'
    have hstate' : r'.state = .verifying := by rw [← hr, hstate]
    split_ifs with h₀ hl₀ h₁ hl₁ h₂ hl₂ h₃ hl₃
    · obtain ⟨reason, heq⟩ := handleAnnounce_verifying (context (logging H) e) acks
        (Receiver.parseAnnounce body) hstate'
      obtain ⟨ack, hack, hc⟩ := isCompleteAck_sendAck (logging H) e r' acks ackReject
        [(Receiver.parseAnnounce body).action, reason]
      refine ⟨e.now, [ack], (r'.sendAckReject (context (logging H) e) acks
        (Receiver.parseAnnounce body).action reason).2, ?_, by simp [hc, ackReject, ackComplete]⟩
      rw [heq, ← hack, ← hr]
      rfl
    · exact hr ▸ hnone e.now
    · rw [Receiver.handleEnd, if_pos (by simp [hstate'])]
      exact hr ▸ hnone e.now
    · exact hr ▸ hnone e.now
    · simp [isAbortPacket, eq_of_beq h₂, hl₂] at habort
    · exact hr ▸ hnone e.now
    · rw [Receiver.handleBlastComplete, if_pos (by simp [hstate'])]
      exact hr ▸ hnone e.now
    · exact hr ▸ hnone e.now
    · exact hr ▸ hnone e.now

/-- One turn of `loop` in the complete phase: the acknowledgement is not due, or one more is
attempted, and after the last one the restart is pending. -/
theorem loop_completing (acks : List Bytes) (h : Completing r n) :
    (e.now - r.nextCompleteAckMs < Receiver.completeAckIntervalMs ∧
      ∃ r', r.loop (context (logging H) e) acks = (r', acks) ∧ phaseView r' = phaseView r ∧
        Completing r' n) ∨
    (Receiver.completeAckIntervalMs ≤ e.now - r.nextCompleteAckMs ∧
      ∃ r' ack, r.loop (context (logging H) e) acks = (r', acks ++ [ack]) ∧
        isCompleteAck ack = true ∧ r'.handlers = r.handlers ∧
        (Completing r' (n + 1) ∨
          Steady r' ∧ r'.restartPending = true ∧ (n + 1 : Int) = Receiver.completeAckRetries)) := by
  obtain ⟨r₀, hr₀, hview, hcomp, hnext⟩ : ∃ r₀,
      r.performRestartIfDue (context (logging H) e) = r₀ ∧ phaseView r₀ = phaseView r ∧
        Completing r₀ n ∧ r₀.nextCompleteAckMs = r.nextCompleteAckMs := by
    unfold Receiver.performRestartIfDue
    split
    · exact ⟨r, rfl, rfl, h, rfl⟩
    · exact ⟨_, rfl, rfl, h.congr rfl rfl rfl, rfl⟩
  unfold Receiver.loop
  rw [hr₀]
  dsimp only
  rw [if_pos hcomp.on, hnext]
  have hleft := hcomp.left
  have hcount := hcomp.count
  split_ifs with hdue hlast hlast
  · -- the last attempt: the restart is scheduled
    obtain ⟨ack, hack, hc⟩ := isCompleteAck_sendAck (logging H) e r₀ acks ackComplete
      [r₀.completeAction, r₀.completeResult]
    refine .inr ⟨hdue, _, ack, Prod.ext rfl hack, by simpa using hc, congrArg (·.2.1) hview,
      .inr ⟨?_, rfl, ?_⟩⟩
    · exact ⟨rfl, hcomp.logs, by rintro a ⟨⟩⟩
    · change r₀.completeAckRemaining - 1 ≤ 0 at hlast
      omega
  · obtain ⟨ack, hack, hc⟩ := isCompleteAck_sendAck (logging H) e r₀ acks ackComplete
      [r₀.completeAction, r₀.completeResult]
    refine .inr ⟨hdue, _, ack, Prod.ext rfl hack, by simpa using hc, congrArg (·.2.1) hview,
      .inl ⟨hcomp.on, hcomp.verifying, hcomp.logs, ?_, ?_⟩⟩
    · change ¬ r₀.completeAckRemaining - 1 ≤ 0 at hlast
      change 0 < r₀.completeAckRemaining - 1
      omega
    · change ((n + 1 : Nat) : Int) + (r₀.completeAckRemaining - 1) = _
      push_cast
      omega
  · change r₀.completeAckRemaining ≤ 0 at hlast
    omega
  · exact .inl ⟨UInt32.not_le.mp hdue, r₀, rfl, hview, hcomp⟩

end Phase

/-! ## The last finished file -/

/-- The last file that `on_end` finished with a restart: the `COMPLETE` acknowledgements
attempted for it, and whether `restart_pending_` was seen set after the last of them. -/
structure Finished where
  attempts : Nat
  restart : Bool
  deriving DecidableEq, Repr

namespace Run

/-- What the handler that is active in `s` has seen on the way to `s'`. -/
def newCalls (s s' : Run (η × List HandlerCall)) : List HandlerCall :=
  s.receiver.activeHandler.elim [] fun a => (s'.receiver.calls a).drop (s.receiver.calls a).length

/-- The `COMPLETE` acknowledgements attempted on the way to `s'`. -/
def newAttempts (s s' : Run (η × List HandlerCall)) : Nat :=
  (s'.acks.drop s.acks.length).countP isCompleteAck

/-- The history of a run. -/
def noteFinished (s : Run (η × List HandlerCall)) (_ : Event) (s' : Run (η × List HandlerCall))
    (g : Option Finished) : Option Finished :=
  if finishedCall ∈ newCalls s s' then some ⟨newAttempts s s', false⟩
  else g.map fun f =>
    let attempts := f.attempts + newAttempts s s'
    ⟨attempts, f.restart ||
      (decide (Receiver.completeAckRetries ≤ attempts) && s'.receiver.restartPending)⟩

/-- Runs from the constructor on, with handlers that have seen nothing. -/
def History (H : ActionHandler η) (ok : Run (η × List HandlerCall) → Event → Prop)
    (s : Run (η × List HandlerCall) × Option Finished) : Prop :=
  Transition.Reachable
    (fun s => Initial s.1 ∧ (∀ a, s.1.receiver.calls a = []) ∧ s.2 = none) (fun s e => ok s.1 e)
    (Transition.recording (step (logging H)) noteFinished) s

/-- The finished file is kept: no handler was told to abort it, and either its restart is
pending, or there are attempts left and `loop` makes the next one when it is due. -/
structure Committed (H : ActionHandler η) (s : Run (η × List HandlerCall))
    (g : Option Finished) : Prop where
  uninterrupted : ∀ a, Uninterrupted (s.receiver.calls a)
  scheduled : ∀ f, g = some f → f.restart = true ∨
    (f.attempts < Receiver.completeAckRetries ∧
      ∀ e, Receiver.completeAckIntervalMs ≤ e.now - s.receiver.nextCompleteAckMs →
        ∃ f', noteFinished s (.loop e) (s.step (logging H) (.loop e)) g = some f' ∧
          f'.attempts = f.attempts + 1)

/-- Neither a `FILE_ABORT` packet nor a call of `abort` falls into the complete phase. -/
def Undisturbed (s : Run (η × List HandlerCall)) : Event → Prop
  | .abort .. => s.receiver.inCompletePhase = false
  | .fileTransfer _ payload => s.receiver.inCompletePhase = true → isAbortPacket payload = false
  | _ => True

instance Undisturbed.decidable (s : Run (η × List HandlerCall)) :
    (ev : Event) → Decidable (Undisturbed s ev)
  | .abort .. => inferInstanceAs (Decidable (_ = _))
  | .fileTransfer .. => inferInstanceAs (Decidable (_ → _))
  | .fileData .. | .loop _ | .setAnnounceTxCounter _ | .setBlastCompleteTxCounter _
  | .setOtaEnabled _ | .setDeepSleepActive _ | .setMaxChunkSize _ => .isTrue trivial

/-- The invariant of undisturbed runs. -/
inductive Keeps (s : Run (η × List HandlerCall)) : Option Finished → Prop
  | steady {g : Option Finished} (h : Steady s.receiver)
      (hg : ∀ f, g = some f → f.restart = true) : Keeps s g
  | completing {f : Finished} (h : Completing s.receiver f.attempts) : Keeps s (some f)

section Steps

variable {H : ActionHandler η} {s s' : Run (η × List HandlerCall)} {g : Option Finished}
  {ev : Event}

/-- A step that finishes no file makes no such call. -/
theorem not_mem_newCalls (h : Unfinished s.receiver s'.receiver) :
    finishedCall ∉ newCalls s s' := by
  unfold newCalls
  cases ha : s.receiver.activeHandler with
  | none => simp
  | some a =>
    obtain ⟨new, hlog, hnew⟩ := h a
    simpa [hlog] using hnew

/-- One that finishes a file does. -/
theorem mem_newCalls (h : Finishes s.receiver s'.receiver) : finishedCall ∈ newCalls s s' := by
  obtain ⟨a, hact, ha, -⟩ := h
  simp [newCalls, hact, ha]

/-- A calm call keeps a restart that is pending. -/
theorem Keeps.calm (hs : Steady s.receiver) (hg : ∀ f, g = some f → f.restart = true)
    (h : Calm s.receiver s'.receiver) : Keeps s' (noteFinished s ev s' g) := by
  refine .steady (h.steady hs) fun f hf => ?_
  rw [noteFinished, if_neg (not_mem_newCalls h.unfinished)] at hf
  obtain ⟨f₀, hf₀, rfl⟩ := Option.map_eq_some_iff.mp hf
  simp [hg f₀ hf₀]

/-- A call that leaves the complete phase alone. -/
theorem Keeps.waiting {f : Finished} (h : Completing s'.receiver f.attempts)
    (hcalls : ∀ a, s'.receiver.calls a = s.receiver.calls a)
    (hacks : ∃ new, s'.acks = s.acks ++ new ∧ ∀ ack ∈ new, isCompleteAck ack = false) :
    Keeps s' (noteFinished s ev s' (some f)) := by
  obtain ⟨new, hnew, hno⟩ := hacks
  have hzero : newAttempts s s' = 0 := by
    simpa [newAttempts, hnew, List.countP_eq_zero] using hno
  rw [noteFinished, if_neg (not_mem_newCalls (.of_calls hcalls)), Option.map_some, hzero]
  exact .completing h

/-- One more `COMPLETE` was attempted. -/
theorem note_attempt {f : Finished} (hacks : ∃ ack, s'.acks = s.acks ++ [ack] ∧ isCompleteAck ack)
    (hcalls : ∀ a, s'.receiver.calls a = s.receiver.calls a) :
    noteFinished s ev s' (some f) = some ⟨f.attempts + 1, f.restart ||
      (decide (Receiver.completeAckRetries ≤ (f.attempts + 1 : Nat)) &&
        s'.receiver.restartPending)⟩ := by
  obtain ⟨ack, hacks, hack⟩ := hacks
  have hone : newAttempts s s' = 1 := by simp [newAttempts, hacks, hack]
  rw [noteFinished, if_neg (not_mem_newCalls (.of_calls hcalls)), Option.map_some, hone]

/-- An attempt at `COMPLETE` counts, and the last one schedules the restart. -/
theorem Keeps.attempt {f : Finished}
    (hacks : ∃ ack, s'.acks = s.acks ++ [ack] ∧ isCompleteAck ack)
    (hcalls : ∀ a, s'.receiver.calls a = s.receiver.calls a)
    (hnext : Completing s'.receiver (f.attempts + 1) ∨ Steady s'.receiver ∧
      s'.receiver.restartPending = true ∧
        (f.attempts + 1 : Int) = Receiver.completeAckRetries) :
    Keeps s' (noteFinished s ev s' (some f)) := by
  rw [note_attempt hacks hcalls]
  rcases hnext with hc | ⟨hs, hpending, hlast⟩
  · exact .completing hc
  · refine .steady hs ?_
    rintro _ ⟨⟩
    simp [hpending, hlast]

/-- The packets of a file transfer outside of the complete phase. -/
theorem handleFileTransfer_cases (H : ActionHandler η) (e : Env)
    (r : Receiver (η × List HandlerCall)) (acks : List Bytes) (payload : Bytes) :
    Calm r (r.handleFileTransfer (context (logging H) e) acks payload).1 ∨
      Finishes r (r.handleFileTransfer (context (logging H) e) acks payload).1 ∧
        (r.handleFileTransfer (context (logging H) e) acks payload).2.1 = acks := by
  unfold Receiver.handleFileTransfer
  split
  · exact .inl (.refl r)
  · dsimp only
    have htouch : Calm r { r with lastActivityMs := (context (logging H) e).now } := .of_view rfl
    split_ifs
    · exact .inl (htouch.trans (calm_handleAnnounce H e _ _ _))
    · exact .inl htouch
    · exact (handleEnd_cases H e _ acks).imp htouch.trans id
    · exact .inl htouch
    · exact .inl (htouch.trans (calm_handleAbort H e _ _))
    · exact .inl htouch
    · exact .inl (htouch.trans (calm_handleBlastComplete H e _ _ _))
    · exact .inl htouch
    · exact .inl htouch

/-- Every call keeps the invariant, but for the two that disturb the complete phase. -/
theorem Keeps.step (h : Keeps s g) (hev : Undisturbed s ev) :
    Keeps (s.step (logging H) ev) (noteFinished s ev (s.step (logging H) ev) g) := by
  cases h with
  | steady hs hg =>
    cases ev with
    | fileTransfer e payload =>
      rcases handleFileTransfer_cases H e s.receiver s.acks payload with hc | ⟨hf, hacks⟩
      · exact .calm hs hg hc
      · have hcomp := hf.completing hs
        rw [noteFinished, if_pos (mem_newCalls hf)]
        refine .completing ?_
        have hzero : newAttempts s (s.step (logging H) (.fileTransfer e payload)) = 0 := by
          simp only [newAttempts, step, hacks, List.drop_length, List.countP_nil]
        rw [hzero]
        exact hcomp
    | fileData e payload => exact .calm hs hg (calm_handleFileData H e _ _)
    | loop e => exact .calm hs hg (calm_loop H e _ hs.off)
    | abort e reason notifySender => exact .calm hs hg (calm_abort H e _ s.acks reason notifySender)
    | setAnnounceTxCounter txCounter => exact .calm hs hg (.of_view rfl)
    | setBlastCompleteTxCounter txCounter => exact .calm hs hg (.of_view rfl)
    | setOtaEnabled enabled => exact .calm hs hg (.of_view rfl)
    | setDeepSleepActive active => exact .calm hs hg (.of_view rfl)
    | setMaxChunkSize maxChunk => exact .calm hs hg (calm_setMaxChunkSize H _ _)
  | @completing f hc =>
    have hsame : ∃ new, s.acks = s.acks ++ new ∧ ∀ ack ∈ new, isCompleteAck ack = false :=
      ⟨[], by simp, by simp⟩
    cases ev with
    | fileTransfer e payload =>
      obtain ⟨now, new, ok, heq, hnew⟩ :=
        handleFileTransfer_verifying H e s.acks payload hc.verifying (hev hc.on)
      refine .waiting (f := f) ?_ (fun _ => ?_) ?_ <;> simp only [step, heq]
      · exact hc.congr rfl rfl rfl
      · rfl
      · exact ⟨new, rfl, hnew⟩
    | fileData e payload =>
      have heq : (s.receiver.handleFileData (context (logging H) e) payload).1 = s.receiver := by
        unfold Receiver.handleFileData
        split
        · rfl
        · rw [if_pos (by simp [hc.verifying])]
      refine .waiting ?_ (fun _ => ?_) hsame <;> simp only [step, heq]
      exact hc
    | loop e =>
      rcases loop_completing H e s.acks hc with ⟨-, r', heq, hview, hc'⟩ |
        ⟨-, r', ack, heq, hack, hh, hnext⟩
      · refine .waiting ?_ ?_ ?_ <;> simp only [step, heq]
        · exact hc'
        · exact calls_congr (congrArg (·.2.1) hview)
        · exact hsame
      · refine .attempt ⟨ack, ?_, hack⟩ ?_ ?_ <;> simp only [step, heq]
        · exact calls_congr hh
        · exact hnext
    | abort e reason notifySender => simp [Undisturbed, hc.on] at hev
    | setAnnounceTxCounter txCounter =>
      exact .waiting (hc.congr rfl rfl rfl) (fun _ => rfl) hsame
    | setBlastCompleteTxCounter txCounter =>
      exact .waiting (hc.congr rfl rfl rfl) (fun _ => rfl) hsame
    | setOtaEnabled enabled => exact .waiting (hc.congr rfl rfl rfl) (fun _ => rfl) hsame
    | setDeepSleepActive active => exact .waiting (hc.congr rfl rfl rfl) (fun _ => rfl) hsame
    | setMaxChunkSize maxChunk =>
      have hcalls := calls_setMaxChunkSize H s.receiver maxChunk
      exact .waiting ⟨hc.on, hc.verifying, fun a => by rw [step, hcalls]; exact hc.logs a, hc.left,
        hc.count⟩ hcalls hsame

/-- In a state with the invariant the finished file is committed. -/
theorem Keeps.committed (h : Keeps s g) : Committed H s g := by
  cases h with
  | steady hs hg => exact ⟨hs.logs, fun f hf => .inl (hg f hf)⟩
  | @completing f hc =>
    refine ⟨hc.logs, ?_⟩
    rintro _ ⟨⟩
    have hleft := hc.left
    have hcount := hc.count
    refine .inr ⟨by omega, fun e hdue => ?_⟩
    rcases loop_completing H e s.acks hc with ⟨hwait, -⟩ | ⟨-, r', ack, heq, hack, hh, -⟩
    · exact absurd hdue (UInt32.not_le.mpr hwait)
    · have hstep : s.step (logging H) (.loop e) = ⟨r', s.acks ++ [ack]⟩ := by
        simp only [Run.step, heq]
      rw [hstep]
      exact ⟨_, note_attempt ⟨ack, rfl, hack⟩ (calls_congr hh), rfl⟩

end Steps

/-- A file that was finished with a restart stays finished: as long as no `FILE_ABORT` packet
and no `abort` falls into the complete phase, no later call of any kind keeps the restart
from being scheduled after the five attempts at `COMPLETE`, and the handler is never told
to abort that file. -/
theorem committed_of_undisturbed (H : ActionHandler η)
    {s : Run (η × List HandlerCall) × Option Finished} (hs : History H Undisturbed s) :
    Committed H s.1 s.2 := by
  refine Keeps.committed (hs.invariant (I := fun s => Keeps s.1 s.2) ?_ fun s ev => Keeps.step)
  rintro ⟨_, _⟩ ⟨⟨handlers, rfl⟩, hcalls, rfl⟩
  refine .steady ⟨rfl, fun a => ?_, by rintro a ⟨⟩⟩ (by rintro f ⟨⟩)
  rw [hcalls a]
  intro before mid reason after heq
  simp at heq

/-! ### The counterexample -/

/-- A handler that takes every file and wants a restart for it. -/
def flasher : ActionHandler Unit := { sink with wantsRestartAfterComplete := fun _ => true }

/-- A receiver with this handler for firmware. -/
def flasherRun : Run (Unit × List HandlerCall) :=
  { receiver := { handlers := fun a => if a = actionOtaFlash then some ((), []) else none } }

/-- A file of one chunk: announced, sent, flashed and ended. -/
def oneChunkFile : List Event :=
  let e : Env := ⟨1000, fun _ => true⟩
  [.setOtaEnabled true,
    .fileTransfer e ([0x00] ++ leEncode 4 1 ++ List.replicate 16 0 ++ leEncode 2 64 ++
      [actionOtaFlash] ++ List.replicate 12 0),
    .fileData e (leEncode 4 0 ++ [0xE9]), .fileTransfer e [0x03, 0, 0], .fileTransfer e [0x01]]

/-- After the end of the file an abort arrives, before the first repetition is due. -/
def abortedFile : List Event := oneChunkFile ++ [.fileTransfer ⟨1100, fun _ => true⟩ [0x02, 0x01]]

def flasherEnd (events : List Event) : Run (Unit × List HandlerCall) × Option Finished :=
  Transition.runFrom (Transition.recording (step (logging flasher)) noteFinished)
    (flasherRun, none) events

theorem history_flasherEnd {ok : Run (Unit × List HandlerCall) → Event → Prop}
    (events : List Event)
    (h : Transition.Admits (fun s e => ok s.1 e)
      (Transition.recording (step (logging flasher)) noteFinished) (flasherRun, none) events) :
    History flasher ok (flasherEnd events) :=
  Transition.Reachable.runFrom (.start ⟨⟨_, rfl⟩, fun a => by
    by_cases ha : a = actionOtaFlash <;> simp [Receiver.calls, flasherRun, ha], rfl⟩) h

/-- The five repetitions, with a duplicate `END`, a duplicate announce and a failing send among
them. -/
def completedFile : List Event :=
  oneChunkFile ++ [.loop ⟨2000, fun _ => true⟩, .fileTransfer ⟨2100, fun _ => true⟩ [0x01],
    .loop ⟨3000, fun _ => false⟩,
    .fileTransfer ⟨3100, fun _ => true⟩ ([0x00] ++ leEncode 4 1 ++ List.replicate 16 0 ++
      leEncode 2 64 ++ [actionOtaFlash] ++ List.replicate 12 0),
    .loop ⟨4000, fun _ => true⟩, .loop ⟨5000, fun _ => true⟩, .loop ⟨6000, fun _ => true⟩]

/-- The restart of that file is pending after the fifth attempt. -/
theorem committed_completedFile :
    (flasherEnd completedFile).2 = some ⟨5, true⟩ ∧
      Committed flasher (flasherEnd completedFile).1 (flasherEnd completedFile).2 :=
  ⟨by decide +kernel,
    committed_of_undisturbed flasher (history_flasherEnd completedFile (by decide +kernel))⟩

/-- A `FILE_ABORT` in the complete phase takes the restart away and interrupts the finished
file. -/
theorem not_committed_abortedFile :
    ¬ ∀ s, History flasher (fun _ _ => True) s → Committed flasher s.1 s.2 := by
  intro h
  have hc := h _ (history_flasherEnd abortedFile (by decide +kernel))
  have hlog : (flasherEnd abortedFile).1.receiver.calls actionOtaFlash =
      [.announced true, .wrote 0] ++ finishedCall :: ([] ++ .aborted 1 :: []) := by decide +kernel
  simpa using hc.uninterrupted actionOtaFlash _ _ _ _ hlog

end Run

end FileReceiver

end EspTree
