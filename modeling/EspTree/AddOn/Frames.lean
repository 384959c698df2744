import EspTree.AddOn.Server

/-!
# What an event leaves alone

The flash coroutines do not touch the compile worker, the cancels and the uploads, and the endpoints
and the compile worker do not touch the flash coroutines.

The state of the add-on falls into two parts besides the table of jobs.  `flow` is where the flash
coroutines are, `others` is the rest.  `step_flow` and `step_others` say which events move which
part, so that an invariant about one of them has to be looked at for few events only.  The lemmas
before those go through the functions one by one: each says that a function does not move the part
that is not its own, and is proved by unfolding this function alone.
-/

namespace EspTree.AddOn

open Wire

namespace Server

variable (c : Settings) (s : Server) (r : Reply)

/-- Where the flash coroutines are. -/
def flow : Worker × Option Flash × List Callback × List Job :=
  (s.worker, s.flash, s.callbacks, s.aborts)

theorem compileDequeueNext_flow : (s.compileDequeueNext r).flow = s.flow := by
  unfold compileDequeueNext
  repeat' split
  all_goals rfl

/-- The compile worker leaves the flash coroutines alone. -/
theorem compileStep_flow : (s.compileStep r).flow = s.flow := by
  unfold compileStep compiled
  repeat' split
  all_goals first | rfl | exact compileDequeueNext_flow _ r

/-- Where the compile worker, the cancels and the uploads are. -/
def others : Compiler × Option String × List Nat × List (Mac × Bool) :=
  (s.compiler, s.activeProc, s.cancels, s.uploading)

@[simp] theorem finish_others (id : Nat) (status : Status) (errorMsg : Option String) (now : Nat) :
    (s.finish c id status errorMsg now).others = s.others := by
  unfold finish
  split <;> rfl

@[simp] theorem fail_others (id : Nat) (message : String) (now : Nat) :
    (s.fail c id message now).others = s.others :=
  s.finish_others c id .failed _ now

theorem handleDequeueFailure_others (job : Job) (reason : String) (w : Worker) :
    ({ s.handleDequeueFailure job reason with worker := w } : Server).others = s.others := by
  unfold handleDequeueFailure
  dsimp only
  split_ifs <;> rfl

@[simp] theorem endTurn_others : (s.endTurn r).others = s.others := by
  unfold endTurn dequeueNext
  repeat' split
  all_goals first | rfl | exact s.handleDequeueFailure_others _ _ _

@[simp] theorem close_others : (s.close r).others = s.others :=
  endTurn_others { s with flash := none } r

@[simp] theorem rejoinLoop_others (job : Job) (uptime : Option Nat) (deadline : Nat) :
    (s.rejoinLoop c r job uptime deadline).others = s.others := by
  unfold rejoinLoop
  repeat' split
  all_goals first | rfl | simp

@[simp] theorem waitForRejoin_others (job : Job) (uptime : Option Nat) :
    (s.waitForRejoin c r job uptime).others = s.others := by
  unfold waitForRejoin
  dsimp only
  split
  · rfl
  · simp

@[simp] theorem transferLoop_others (job : Job) (uptime : Option Nat) :
    (s.transferLoop c r job uptime).others = s.others := by
  unfold transferLoop
  repeat' split
  all_goals first | rfl | simp

@[simp] theorem startFailed_others (job : Job) (message : String) :
    (s.startFailed c r job message).others = s.others := by
  unfold startFailed
  split <;> simp <;> rfl

@[simp] theorem flush_others (job : Job) (uptime : Option Nat) (n : Nat) :
    (flush c r job uptime n s).others = s.others := by
  induction n generalizing s with
  | zero =>
    unfold flush
    rw [transferLoop_others]
    rfl
  | succ n ih =>
    unfold flush
    split
    · rename_i f heq hf
      cases heq
      dsimp only
      split
      · rw [ih]
        rfl
      · rfl
      · rfl
    · rw [transferLoop_others]
      rfl

@[simp] theorem processConnected_others (job : Job) :
    (s.processConnected c r job).others = s.others := by
  unfold processConnected
  dsimp only
  repeat' split
  · simp
  · rfl
  · rw [transferLoop_others]
    rfl

@[simp] theorem process_others (job : Job) : (s.process c r job).others = s.others := by
  unfold process
  repeat' split
  all_goals first | rfl | simp

/-- What one round of a loop leaves alone, the loop does. -/
theorem foldl_others {f : Server → Job → Server} (hf : ∀ s job, (f s job).others = s.others)
    (jobs : List Job) : (jobs.foldl f s).others = s.others := by
  induction jobs generalizing s with
  | nil => rfl
  | cons job jobs ih => rw [List.foldl_cons, ih, hf]

theorem recoverStartup_others (now : Nat) : (s.recoverStartup c now).others = s.others := by
  have hdrop (s : Server) (jobs : List Job) (b : Bool) : ({ jobs.foldl (fun s job =>
      { s with store := s.store.deleteFile job.firmwarePath
               db := s.db.abortQueuedJob job.id }) s with
        paused := b, worker := .top } : Server).others = s.others := by
    refine (Eq.trans rfl (s.foldl_others ?_ jobs))
    exact fun _ _ => rfl
  unfold recoverStartup
  dsimp only
  split
  · exact hdrop s _ _
  · exact (hdrop _ _ _).trans (s.fail_others c _ _ now)

/-- The flash worker leaves everything alone that is not its own. -/
theorem workerStep_others : (s.workerStep c r).others = s.others := by
  unfold workerStep
  split
  · exact s.recoverStartup_others c r.now
  · split
    · simp
    · rfl
  · rw [endTurn_others]
    split
    · refine s.foldl_others ?_ _
      exact fun _ _ => rfl
    · rfl
  · unfold dequeued
    repeat' split
    all_goals first | rfl | exact s.handleDequeueFailure_others _ _ _
  · repeat' split
    all_goals first | rfl | simp
  · split
    · simp
    · rfl
  · split
    · simp
    · simp
      rfl
  · split
    · simp
    · simp
      rfl
  · rename_i job uptime n hw
    dsimp only
    rw [flush_others, ← s.fail_others c job.id "OTA transfer timed out" r.now]
    cases (s.fail c job.id "OTA transfer timed out" r.now).flash <;> rfl
  · repeat' split
    all_goals first | rfl | simp
  · simp
  · simp
  · unfold rejoined
    dsimp only
    repeat' split
    all_goals first | rfl | simp
  · simp
end Server

/-- The event lets a flash coroutine go on, starts one or ends them all. -/
def Event.flashes : Event → Bool
  | .worker _ | .chunkRequest _ | .chunkReply _ _ _ | .onStatus _ _ _ | .onAborted _ _
  | .otaAbort _ _ _ | .abortReply _ _ _ | .restart => true
  | _ => false

/-- An event of the endpoints or of the compile worker does not move the flash coroutines. -/
theorem step_flow (c : Settings) (s : Server) {e : Event} (he : e.flashes = false) :
    (step c s e).flow = s.flow := by
  cases e with
  | compiler r => exact s.compileStep_flow r
  | worker | chunkRequest | chunkReply | onStatus | onAborted | otaAbort | abortReply | restart =>
    cases he
  | _ =>
    simp only [step, Server.otaUpload, Server.uploadReply, Server.otaStart, Server.confirm,
      Server.dropJob, Server.otaReflash, Server.deleteRetained, Server.otaQueueUp,
      Server.otaQueueDown, Server.compileDeviceConfig, Server.compileCancel, Server.cancelReply,
      Server.compileQueueAbort, Server.compileStartFlash, Server.flashWizardSubmit, Server.submitReply,
      Server.submitReplied]
    repeat' split
    all_goals rfl

/-- The event cancels a compilation, or lets a cancel go on. -/
def Event.isCancel : Event → Bool
  | .compileCancel _ | .cancelReply _ => true
  | _ => false

theorem Server.compileStep_cancels (s : Server) (r : Reply) :
    (s.compileStep r).cancels = s.cancels := by
  have hnext (s : Server) : (s.compileDequeueNext r).cancels = s.cancels := by
    unfold compileDequeueNext
    repeat' split
    all_goals rfl
  unfold compileStep compiled
  repeat' split
  all_goals first | rfl | exact hnext _

/-- Only a cancel asks for a cancel. -/
theorem step_cancels (c : Settings) (s : Server) {e : Event} (he : e.flashes = false)
    (hcancel : e.isCancel = false) : (step c s e).cancels = s.cancels := by
  cases e with
  | compiler r => exact s.compileStep_cancels r
  | worker | chunkRequest | chunkReply | onStatus | onAborted | otaAbort | abortReply | restart =>
    cases he
  | compileCancel | cancelReply => cases hcancel
  | _ =>
    simp only [step, Server.otaUpload, Server.uploadReply, Server.otaStart, Server.confirm,
      Server.dropJob, Server.otaReflash, Server.deleteRetained, Server.otaQueueUp,
      Server.otaQueueDown, Server.compileDeviceConfig, Server.compileQueueAbort,
      Server.compileStartFlash, Server.flashWizardSubmit, Server.submitReply, Server.submitReplied]
    repeat' split
    all_goals rfl

/-- An event of the flash coroutines does not move the rest. -/
theorem step_others (c : Settings) (s : Server) {e : Event} (he : e.flashes = true)
    (hrestart : e ≠ .restart) : (step c s e).others = s.others := by
  cases e with
  | worker r => exact s.workerStep_others c r
  | chunkRequest now =>
    simp only [step, Server.chunkRequest]
    repeat' split
    all_goals rfl
  | chunkReply i failed now =>
    simp only [step, Server.chunkReply]
    repeat' split
    all_goals first | rfl | exact Server.fail_others c _ _ _ now
  | onStatus state errorDetail now =>
    simp only [step, Server.onStatus]
    repeat' split
    all_goals first | rfl | exact Server.fail_others c _ _ _ now
  | onAborted reason now =>
    simp only [step, Server.onAborted]
    split
    · rfl
    · exact s.fail_others c _ _ now
  | otaAbort connected client now =>
    simp only [step, Server.otaAbort]
    repeat' split
    all_goals rfl
  | abortReply i failed now =>
    simp only [step, Server.abortReply]
    split <;> rfl
  | restart => exact absurd rfl hrestart
  | _ => cases he

end EspTree.AddOn
