import EspTree.AddOn.Exclusive
import EspTree.AddOn.Frames

/-!
# Cancelled compilations

Once a compile job has been cancelled it should stay so, and no flash job should follow it.  Two
things have to be seen for that.  The coroutines that flash never get hold of a compile job: `Within`
says which jobs they have hold of or may find, and is kept by every event.  And the compile worker
must not go on with a cancelled job; it does, since it looks neither at the row nor for a cancel
between its `await`s, and without a process a cancel stops nothing.

`CompileInv` is the invariant of the run: a job that is to be compiled is none of those that the
flash coroutines have hold of, and a cancel is pending only for a job whose compilation has begun.
After a cancel the job has failed, and `Compiles` is what is kept from then on.

The condition `CancelUnraced` is on the state before each step: when the compile worker is about to
write that a job is done, the row of the job still says that it is being compiled.
-/

namespace EspTree.AddOn

open Wire

/-! ## The jobs of the flash coroutines -/

/-- The job that the OTA worker works on. -/
def Worker.jobId : Worker → Option Nat
  | .boot | .top | .idle => none
  | .dequeuing job | .connecting job _ | .preparing job | .starting job _ | .flushSending job _ _
  | .flushAborting job _ _ | .transferring job _ _ | .aborting job _ | .rejoinUptime job _
  | .rejoining job _ _ | .rejoinSleeping job _ _ => some job.id

/-- The job of which the compile worker is about to write that it is done. -/
def Compiler.reported : Compiler → Option Nat
  | .reporting job _ => some job.id
  | _ => none

/-- The worker finds jobs with the status. -/
def Status.isFlashable (status : Status) : Bool := status.isFlash || status == .queued

/-- The jobs that the flash coroutines have hold of, or may find in the table, are among those of
`p`. -/
structure Within (p : Nat → Prop) (s : Server) : Prop where
  worker : ∀ id ∈ s.worker.jobId, p id
  flash : ∀ f ∈ s.flash, p f.job
  callbacks : ∀ callback ∈ s.callbacks, p callback.job
  aborts : ∀ job ∈ s.aborts, p job.id
  rows : ∀ job ∈ s.db.jobs, job.status.isFlashable = true → p job.id

/-- The rows that the worker finds after the writes are among those of `p`. -/
def Safe (p : Nat → Prop) (id : Nat) (status : Status) : Prop := status.isFlashable = true → p id

/-- If no statement makes a row flashable but of a job with the property, all flashable rows are of
such jobs. -/
theorem rows_of_evolves {p : Nat → Prop} {db db' : Database} (h : Evolves (Safe p) Nobody db db')
    (hrows : ∀ job ∈ db.jobs, job.status.isFlashable = true → p job.id) :
    ∀ job ∈ db'.jobs, job.status.isFlashable = true → p job.id := by
  intro job' hjob' hst
  rcases h.origin job' hjob' with ⟨job, hjob, hid, -, hsame | hp⟩ | ⟨-, ⟨⟩⟩
  · rw [← hid]
    exact hrows job hjob (hsame ▸ hst)
  · exact hp hst

namespace Within

variable {p : Nat → Prop} {s : Server} (c : Settings) (r : Reply)

/-- The active job is one of those that the coroutines may find. -/
theorem activeJob (h : Within p s) {job : Job} (hjob : s.db.activeJob = some job) : p job.id := by
  obtain ⟨hmem, hflash⟩ := Database.mem_of_activeJob hjob
  exact h.rows job hmem (by simp [Status.isFlashable, hflash])

/-- To finish a job is no way to get hold of another. -/
theorem finish (h : Within p s) {id : Nat} {status : Status} (errorMsg : Option String) (now : Nat)
    (hst : status.isFlashable = false) : Within p (s.finish c id status errorMsg now) := by
  have hsafe : Safe p id status := fun hflash => by
    rw [hst] at hflash
    cases hflash
  have hrows := rows_of_evolves (s.finish_evolves c errorMsg now hsafe) h.rows
  unfold Server.finish at hrows ⊢
  split
  · exact h
  · rename_i job hjob
    simp only [hjob] at hrows
    exact { h with rows := hrows }

theorem fail (h : Within p s) (id : Nat) (message : String) (now : Nat) :
    Within p (s.fail c id message now) :=
  h.finish c _ now rfl

theorem setTerminal (h : Within p s) (run : Nat) : Within p (s.setTerminal run) := by
  refine { h with flash := fun f hf => ?_ }
  obtain ⟨f', hf', rfl⟩ := Option.mem_map.1 hf
  have hp := h.flash f' hf'
  split_ifs <;> exact hp

theorem setStatus (h : Within p s) {id : Nat} (hp : p id) (status : Status) :
    Within p (s.setStatus id status) :=
  { h with rows := rows_of_evolves (s.setStatus_evolves fun _ => hp) h.rows }

theorem handleDequeueFailure (h : Within p s) (job : Job) (reason : String) :
    Within p (s.handleDequeueFailure job reason) := by
  have hrows := rows_of_evolves (s.handleDequeueFailure_evolves job reason) h.rows
  unfold Server.handleDequeueFailure at hrows ⊢
  dsimp only at hrows ⊢
  split_ifs at hrows ⊢ <;> exact { h with rows := hrows }

/-- The job that is taken from the queue had the property when it was queued. -/
theorem dequeueNext (h : Within p s) : Within p (s.dequeueNext r) := by
  unfold Server.dequeueNext
  split
  · exact { h with worker := by simp [Worker.jobId] }
  rename_i job hjob
  split_ifs
  · refine { h with worker := fun id hid => ?_ }
    cases hid
    have hmem : job ∈ s.db.listJobsByStatus .queued :=
      (List.mem_insertionSort _).1 (List.mem_of_mem_head? hjob)
    obtain ⟨hjob, hq⟩ := List.mem_filter.1 hmem
    exact h.rows job hjob (by simp [Status.isFlashable, beq_iff_eq.1 hq])
  · exact { h.handleDequeueFailure job _ with worker := by simp [Worker.jobId] }

theorem endTurn (h : Within p s) : Within p (s.endTurn r) := by
  unfold Server.endTurn
  split_ifs
  · exact { h with worker := by simp [Worker.jobId] }
  · exact h.dequeueNext r

theorem close (h : Within p s) : Within p (s.close r) :=
  endTurn r { h with flash := by simp }

theorem rejoinLoop (h : Within p s) {job : Job} (hp : p job.id) (uptime : Option Nat)
    (deadline : Nat) : Within p (s.rejoinLoop c r job uptime deadline) := by
  unfold Server.rejoinLoop
  split_ifs
  · exact close r (h.finish c _ r.now rfl)
  · split
    · exact h.close r
    · split_ifs
      · exact h.close r
      · exact { h with worker := by simpa [Worker.jobId] using hp }

theorem waitForRejoin (h : Within p s) {job : Job} (hp : p job.id) (uptime : Option Nat) :
    Within p (s.waitForRejoin c r job uptime) := by
  unfold Server.waitForRejoin
  dsimp only
  split_ifs
  · exact { h with worker := by simpa [Worker.jobId] using hp }
  · exact h.rejoinLoop c r hp uptime _

theorem rejoined (h : Within p s) (job : Job) (node : Node) :
    Within p (s.rejoined c r job node) := by
  unfold Server.rejoined
  dsimp only
  split_ifs
  · exact close r (h.finish c _ r.now rfl)
  · exact close r (h.finish c _ r.now rfl)

/-- The loop of a transfer keeps hold of the job it was started with. -/
theorem transferLoop (h : Within p s) {job : Job} (hp : p job.id) (uptime : Option Nat) :
    Within p (s.transferLoop c r job uptime) := by
  unfold Server.transferLoop
  split
  · exact h.close r
  · split_ifs
    · exact h.close r
    · exact { h with worker := by simpa [Worker.jobId] using hp }
    · exact { h with worker := by simpa [Worker.jobId] using hp }

theorem startFailed (h : Within p s) {job : Job} (hp : p job.id) (message : String) :
    Within p (s.startFailed c r job message) := by
  unfold Server.startFailed
  split_ifs
  · refine close r { h with rows := rows_of_evolves ?_ h.rows }
    exact .write (fun _ => rfl) (fun _ => rfl) (fun _ => rfl) fun _ => hp
  · have hreset : Within p { s with retryCounts := setCount s.retryCounts job.id 0 } :=
      ⟨h.worker, h.flash, h.callbacks, h.aborts, h.rows⟩
    exact close r (hreset.fail c job.id _ r.now)

theorem flush (h : Within p s) {job : Job} (hp : p job.id) (uptime : Option Nat) (n : Nat) :
    Within p (Server.flush c r job uptime n s) := by
  have hdone {s : Server} (h : Within p s) :
      Within p ((s.setStatus job.id .transferring).transferLoop c r job uptime) :=
    (h.setStatus hp _).transferLoop c r hp uptime
  induction n generalizing s with
  | zero =>
    unfold Server.flush
    exact hdone h
  | succ n ih =>
    unfold Server.flush
    split
    · rename_i f heq hf
      cases heq
      have hflash : Within p { s with flash := some { f with lastEventAt := r.now } } :=
        { h with flash := by simpa using h.flash f hf }
      dsimp only
      split
      · exact ih hflash
      · exact { hflash with worker := by simpa [Worker.jobId] using hp }
      · exact { hflash with worker := by simpa [Worker.jobId] using hp }
    · exact hdone h

/-- So does all that is done with a job while its bridge is connected. -/
theorem processConnected (h : Within p s) {job : Job} (hp : p job.id) :
    Within p (s.processConnected c r job) := by
  unfold Server.processConnected
  dsimp only
  split_ifs
  · refine ⟨by simpa [Worker.jobId] using hp, by simpa using hp, h.callbacks, h.aborts,
      rows_of_evolves ?_ h.rows⟩
    exact .touch (fun _ => rfl) (fun _ => rfl) fun _ => rfl
  · have hflash : Within p { s with
        runs := s.runs + 1
        flash := some ⟨s.runs, job.id, r.now, r.now, false, 0, false, false⟩ } :=
      { h with flash := by simpa using hp }
    exact hflash.transferLoop c r hp none
  · exact endTurn r (h.fail c job.id _ r.now)

theorem process (h : Within p s) {job : Job} (hp : p job.id) : Within p (s.process c r job) := by
  unfold Server.process
  split
  · exact h.endTurn r
  rename_i current hcurrent
  have hid : current.id = job.id := by simpa using List.find?_some hcurrent
  rw [← hid] at hp
  split_ifs
  · exact h.endTurn r
  · exact h.waitForRejoin c r hp none
  · exact endTurn r (h.fail c current.id _ r.now)
  · exact h.processConnected c r hp
  · exact { h with worker := by simpa [Worker.jobId] using hp }
  · exact endTurn r (h.fail c current.id _ r.now)

/-- Files are dropped along a list of jobs, with some rows. -/
theorem foldl_rows (h : Within p s) {f : Server → Job → Server}
    (hf : ∀ s job, (f s job).worker = s.worker ∧ (f s job).flash = s.flash ∧
      (f s job).callbacks = s.callbacks ∧ (f s job).aborts = s.aborts ∧
      Evolves (Safe p) Nobody s.db (f s job).db) (jobs : List Job) : Within p (jobs.foldl f s) := by
  induction jobs generalizing s with
  | nil => exact h
  | cons job jobs ih =>
    obtain ⟨hworker, hflash, hcallbacks, haborts, hev⟩ := hf s job
    exact ih ⟨hworker ▸ h.worker, hflash ▸ h.flash, hcallbacks ▸ h.callbacks, haborts ▸ h.aborts,
      rows_of_evolves hev h.rows⟩

theorem cleanupExpiredFiles (h : Within p s) (now : Nat) : Within p (s.cleanupExpiredFiles now) := by
  refine h.foldl_rows ?_ _
  exact fun _ job => ⟨rfl, rfl, rfl, rfl, .clearFirmware job.id⟩

/-- The recovery at startup finds only jobs with the property. -/
theorem recoverStartup (h : Within p s) (now : Nat) : Within p (s.recoverStartup c now) := by
  have hdrop {s : Server} (h : Within p s) (jobs : List Job) : Within p (jobs.foldl (fun s job =>
      { s with store := s.store.deleteFile job.firmwarePath
               db := s.db.abortQueuedJob job.id }) s) := by
    refine h.foldl_rows ?_ jobs
    exact fun _ job => ⟨rfl, rfl, rfl, rfl, (Evolves.abortQueued job.id).after .refl⟩
  unfold Server.recoverStartup
  dsimp only
  split
  · exact { hdrop h _ with worker := by simp [Worker.jobId] }
  · exact { hdrop (h.fail c _ _ now) _ with worker := by simp [Worker.jobId] }

/-- One turn of the flash worker. -/
theorem workerStep (h : Within p s) : Within p (s.workerStep c r) := by
  have hjob {job : Job} (hw : s.worker.jobId = some job.id) : p job.id := h.worker _ hw
  unfold Server.workerStep
  split
  · exact h.recoverStartup c r.now
  · split
    · rename_i job hactive
      exact h.process c r (h.activeJob hactive)
    · exact { h with worker := by simp [Worker.jobId] }
  · refine endTurn r ?_
    split_ifs
    · exact h.cleanupExpiredFiles r.now
    · exact h
  · rename_i job hw
    have hp := hjob (by rw [hw]; rfl)
    have hback (reason : String) :
        Within p { s.handleDequeueFailure job reason with worker := .top } :=
      { h.handleDequeueFailure job reason with worker := by simp [Worker.jobId] }
    unfold Server.dequeued
    split
    · exact hback _
    · exact hback _
    · split_ifs
      · refine ⟨by simp [Worker.jobId], h.flash, h.callbacks, h.aborts, rows_of_evolves ?_ h.rows⟩
        exact .write (fun _ => rfl) (fun _ => rfl) (fun _ => rfl) fun _ => hp
      · exact hback _
  · rename_i job waited hw
    have hp := hjob (by rw [hw]; rfl)
    split_ifs
    · exact h.processConnected c r hp
    · exact { h with worker := by simpa [Worker.jobId] using hp }
    · exact endTurn r (h.fail c job.id _ r.now)
  · rename_i job hw
    have hp := hjob (by rw [hw]; rfl)
    split_ifs
    · exact h.startFailed c r hp _
    · exact { h with worker := by simpa [Worker.jobId] using hp }
  · rename_i job uptime hw
    have hp := hjob (by rw [hw]; rfl)
    split
    · exact h.startFailed c r hp _
    · have hready : Within p { s with flash := s.flash.map fun f =>
          { f with ready := true, buffered := 0 } } := by
        refine { h with flash := fun f hf => ?_ }
        obtain ⟨f', hf', rfl⟩ := Option.mem_map.1 hf
        exact h.flash f' hf'
      exact hready.flush c r hp uptime _
  · rename_i job uptime n hw
    have hp := hjob (by rw [hw]; rfl)
    split
    · exact h.startFailed c r hp _
    · exact (h.setStatus hp _).flush c r hp uptime n
  · rename_i job uptime n hw
    have hp := hjob (by rw [hw]; rfl)
    have hfail := h.fail c job.id "OTA transfer timed out" r.now
    dsimp only
    refine flush c r ?_ hp uptime n
    cases (s.fail c job.id "OTA transfer timed out" r.now).flash.map (·.run) with
    | none => exact hfail
    | some run => exact hfail.setTerminal run
  · rename_i job uptime latest hw
    have hp := hjob (by rw [hw]; rfl)
    split
    · exact h.close r
    · split_ifs
      · refine h.waitForRejoin c r ?_ uptime
        cases hrow : s.db.getJob job.id with
        | none => exact hp
        | some row =>
          rw [Option.getD_some, (Database.mem_of_getJob hrow).2]
          exact hp
      · exact h.close r
      · exact { h with worker := by simpa [Worker.jobId] using hp }
      · exact h.transferLoop c r hp uptime
  · exact close r (h.fail c _ _ r.now)
  · rename_i job deadline hw
    exact h.rejoinLoop c r (hjob (by rw [hw]; rfl)) _ deadline
  · rename_i job uptime deadline hw
    have hp := hjob (by rw [hw]; rfl)
    split
    · split_ifs
      · exact h.rejoined c r job _
      · exact { h with worker := by simpa [Worker.jobId] using hp }
    · exact { h with worker := by simpa [Worker.jobId] using hp }
  · rename_i job uptime deadline hw
    exact h.rejoinLoop c r (hjob (by rw [hw]; rfl)) uptime deadline

end Within

namespace Within

variable {p : Nat → Prop} {s : Server} (c : Settings)

/-- What the worker writes without looking again, it writes to a job of which it had hold. -/
theorem of_worker (h : Within p s) {r : Reply} {id : Nat} (hw : s.worker.writes r = some id) :
    p id := by
  refine h.worker id ?_
  cases hworker : s.worker <;> rw [hworker] at hw <;> simp only [Worker.writes] at hw <;>
    grind [Worker.jobId]

/-- Only the compile worker and a cancel write blindly for other jobs. -/
theorem of_blind (h : Within p s) {e : Event} {id : Nat} {status : Status}
    (hw : (id, status) ∈ s.blindWrites e) : p id ∨ status = .failed ∨
      status = .compileSuccess ∧ e.isCompiler = true ∧ s.compiler.reported = some id := by
  cases e with
  | worker r =>
    simp only [Server.blindWrites, List.mem_flatMap, Option.mem_toList, List.mem_map] at hw
    obtain ⟨id', hid', _, -, heq⟩ := hw
    cases heq
    exact .inl (h.of_worker hid')
  | chunkReply i failed now =>
    simp only [Server.blindWrites, List.mem_flatMap, Option.mem_toList] at hw
    obtain ⟨callback, hi, hmem⟩ := hw
    have hp := h.callbacks callback (List.mem_of_getElem? hi)
    split_ifs at hmem
    · cases hmem
    · rw [(Prod.mk.inj (List.mem_singleton.1 hmem)).1]
      exact .inl hp
    · rw [(Prod.mk.inj (List.mem_singleton.1 hmem)).1]
      exact .inl hp
  | onStatus state errorDetail now =>
    simp only [Server.blindWrites, List.mem_flatMap, Option.mem_toList, List.mem_map] at hw
    obtain ⟨f, hf, _, -, heq⟩ := hw
    cases heq
    exact .inl (h.flash f hf)
  | onAborted reason now =>
    simp only [Server.blindWrites, List.mem_map, Option.mem_toList] at hw
    obtain ⟨f, hf, heq⟩ := hw
    cases heq
    exact .inl (h.flash f hf)
  | abortReply i failed now =>
    simp only [Server.blindWrites, List.mem_map, Option.mem_toList] at hw
    obtain ⟨job, hjob, heq⟩ := hw
    cases heq
    exact .inl (h.aborts job (List.mem_of_getElem? hjob))
  | cancelReply i =>
    simp only [Server.blindWrites, List.mem_map] at hw
    obtain ⟨_, -, heq⟩ := hw
    cases heq
    exact .inr (.inl rfl)
  | compiler r =>
    simp only [Server.blindWrites] at hw
    split at hw
    · split_ifs at hw
      · exact .inr (.inl (Prod.mk.inj (List.mem_singleton.1 hw)).2)
      · cases hw
    · split_ifs at hw
      · exact .inr (.inl (Prod.mk.inj (List.mem_singleton.1 hw)).2)
      · cases hw
    · rename_i job path hcompiler
      obtain ⟨hid, hst⟩ := Prod.mk.inj (List.mem_singleton.1 hw)
      exact .inr (.inr ⟨hst, rfl, by rw [hcompiler, hid]; rfl⟩)
    · cases hw
  | _ => cases hw

/-- A write that makes a job flashable is to a job with the property. -/
theorem of_change (h : Within p s)
    (hpending : ∀ job ∈ s.db.jobs, job.status = .pendingConfirm → p job.id) {e : Event} {id : Nat}
    {status : Status} (hc : Change s e id status) (hst : status.isFlashable = true) : p id := by
  cases hc with
  | blind hw =>
    rcases h.of_blind hw with hp | rfl | ⟨rfl, -⟩
    · exact hp
    · cases hst
    · cases hst
  | confirmed hjob hid hp =>
    rw [← hid]
    exact hpending _ hjob hp
  | confirmedFlash hjob hp => exact hpending _ (Database.mem_of_flashCandidate hjob).1 hp
  | startedQueued hjob hq =>
    exact h.rows _ (Database.mem_of_flashCandidate hjob).1 (by rw [hq]; rfl)
  | dropped | abortedNow | compileDropped | began | cancelledNow | superseded => cases hst

/-- An event that leaves the coroutines alone need only be looked at for the rows it makes
flashable. -/
theorem of_flow {s' : Server} (h : Within p s) (hflow : s'.flow = s.flow)
    (hrows : ∀ job ∈ s'.db.jobs, job.status.isFlashable = true → p job.id) : Within p s' := by
  simp only [Server.flow, Prod.mk.injEq] at hflow
  obtain ⟨hworker, hflash, hcallbacks, haborts⟩ := hflow
  exact ⟨hworker ▸ h.worker, hflash ▸ h.flash, hcallbacks ▸ h.callbacks, haborts ▸ h.aborts, hrows⟩

theorem chunkRequest (h : Within p s) (now : Nat) : Within p (s.chunkRequest c now) := by
  unfold Server.chunkRequest
  split
  · exact h
  rename_i f hf
  have hp := h.flash f hf
  have hflash : Within p { s with flash := some { f with lastEventAt := now } } :=
    { h with flash := by simpa using hp }
  have hnew (sending : Bool) :
      ∀ callback ∈ s.callbacks ++ [⟨f.run, f.job, sending⟩], p callback.job := by
    intro callback hmem
    rcases List.mem_append.1 hmem with hmem | hmem
    · exact h.callbacks callback hmem
    · rw [List.mem_singleton.1 hmem]
      exact hp
  split_ifs
  · dsimp only
    split
    · exact hflash
    · exact { hflash with callbacks := hnew false }
    · exact { hflash with callbacks := hnew true }
  · exact { h with flash := by simpa using hp }

theorem chunkReply (h : Within p s) (i : Nat) (failed : Bool) (now : Nat) :
    Within p (s.chunkReply c i failed now) := by
  unfold Server.chunkReply
  split
  · exact h
  rename_i callback hi
  have hp := h.callbacks callback (List.mem_of_getElem? hi)
  have hrest : Within p { s with callbacks := s.callbacks.eraseIdx i } :=
    { h with callbacks := fun callback hmem => h.callbacks callback (List.mem_of_mem_eraseIdx hmem) }
  dsimp only
  split_ifs
  · exact hrest
  · exact hrest.setStatus hp _
  · exact (hrest.fail c _ _ now).setTerminal _

theorem onStatus (h : Within p s) (state : OtaState) (errorDetail : String) (now : Nat) :
    Within p (s.onStatus c state errorDetail now) := by
  unfold Server.onStatus
  split
  · exact h
  rename_i f hf
  have hp := h.flash f hf
  have hflash : Within p { s with flash := some { f with lastEventAt := now } } :=
    { h with flash := by simpa using hp }
  have hreport {g : Job → Job} (hid : ∀ job, (g job).id = job.id)
      (hmac : ∀ job, (g job).mac = job.mac) :
      ∀ job ∈ (s.db.updateJob f.job g).jobs, job.status.isFlashable = true → p job.id :=
    rows_of_evolves (.update hid hmac fun _ => .inr fun _ => hp) h.rows
  cases state with
  | announcing | transferring | verifying | other =>
    exact { hflash with rows := hreport (fun _ => rfl) fun _ => rfl }
  | success =>
    refine { hflash with rows := hreport (fun _ => rfl) fun _ => rfl
                         flash := ?_ }
    simpa using hp
  | failed | aborted => exact (hflash.fail c _ _ now).setTerminal _

theorem onAborted (h : Within p s) (reason : String) (now : Nat) :
    Within p (s.onAborted c reason now) := by
  unfold Server.onAborted
  split
  · exact h
  · exact (h.fail c _ _ now).setTerminal _

theorem abortReplied (h : Within p s) (job : Job) (failed : Bool) (now : Nat) :
    Within p (s.abortReplied c job failed now) := by
  have hsafe : Safe p job.id .aborted := fun hst => by cases hst
  exact { h with rows := rows_of_evolves (s.abortReplied_evolves c job failed now hsafe) h.rows }

theorem otaAbort (h : Within p s) (connected client : Bool) (now : Nat) :
    Within p (s.otaAbort c connected client now) := by
  unfold Server.otaAbort
  split
  · exact h
  rename_i job hjob
  split_ifs
  · refine { h with aborts := fun job' hmem => ?_ }
    rcases List.mem_append.1 hmem with hmem | hmem
    · exact h.aborts job' hmem
    · rw [List.mem_singleton.1 hmem]
      exact h.activeJob hjob
  · exact h.abortReplied c job connected now

theorem abortReply (h : Within p s) (i : Nat) (failed : Bool) (now : Nat) :
    Within p (s.abortReply c i failed now) := by
  unfold Server.abortReply
  split
  · exact h
  · have hrest : Within p { s with aborts := s.aborts.eraseIdx i } :=
      { h with aborts := fun job hmem => h.aborts job (List.mem_of_mem_eraseIdx hmem) }
    exact hrest.abortReplied c _ failed now

/-- After a restart no coroutine has hold of a job. -/
theorem restart (h : Within p s) : Within p s.restart :=
  ⟨by simp [Server.restart, Worker.jobId], by simp [Server.restart], by simp [Server.restart],
    by simp [Server.restart], h.rows⟩

/-- An event keeps it, if the jobs that await confirmation and the new ones are among those of `p`. -/
theorem step (h : Within p s) (hb : ∀ job ∈ s.db.jobs, job.id < s.db.nextId)
    (hpending : ∀ job ∈ s.db.jobs, job.status = .pendingConfirm → p job.id) {e : Event}
    (hnew : e.flashes = false → p s.db.nextId) : Within p (step c s e) := by
  by_cases he : e.flashes = true
  · cases e with
    | worker r => exact h.workerStep c r
    | chunkRequest now => exact h.chunkRequest c now
    | chunkReply i failed now => exact h.chunkReply c i failed now
    | onStatus state errorDetail now => exact h.onStatus c state errorDetail now
    | onAborted reason now => exact h.onAborted c reason now
    | otaAbort connected client now => exact h.otaAbort c connected client now
    | abortReply i failed now => exact h.abortReply c i failed now
    | restart => exact h.restart
    | _ => cases he
  · refine h.of_flow (step_flow c s (by simpa using he)) fun job' hjob' hst => ?_
    rcases (step_evolves c s hb e).origin job' hjob' with ⟨job, hjob, hid, -, hsame | hc⟩ | ⟨hid, -⟩
    · rw [← hid]
      exact h.rows job hjob (hsame ▸ hst)
    · exact h.of_change hpending hc hst
    · rw [hid]
      exact hnew (by simpa using he)

/-- A weaker property holds of the same jobs. -/
theorem mono {q : Nat → Prop} (h : Within p s) (hpq : ∀ id, p id → q id) : Within q s :=
  ⟨fun id hid => hpq id (h.worker id hid), fun f hf => hpq _ (h.flash f hf),
    fun callback hmem => hpq _ (h.callbacks callback hmem), fun job hjob => hpq _ (h.aborts job hjob),
    fun job hjob hst => hpq _ (h.rows job hjob hst)⟩

end Within

/-- A submission of the wizard lets no flash coroutine go on. -/
theorem Event.not_flashes_of_submission {s : Server} {e : Event} (he : (s.submission e).isSome = true) :
    e.flashes = false := by
  cases e with
  | flashWizardSubmit | submitReply => rfl
  | _ => cases he

/-! ## Compile jobs -/

/-- The statuses of a job that has begun to be compiled, or of one that is over. -/
def Status.isBegun : Status → Bool
  | .compiling | .compileSuccess | .failed | .aborted => true
  | _ => false

/-- `compiling` is the one active status in which a compilation has begun. -/
theorem Status.eq_compiling {status : Status} (hactive : status.isActive = true) (hbegun : status.isBegun = true) :
    status = .compiling := by
  cases status <;>
    first | rfl | exact absurd hactive Bool.false_ne_true | exact absurd hbegun Bool.false_ne_true

/-- A compile job with one of the statuses: no flash coroutine can get hold of it. -/
structure Compiles (kind : Status → Bool) (s : Server) (id : Nat) : Prop where
  old : id < s.db.nextId
  free : Within (· ≠ id) s
  rows : ∀ job ∈ s.db.jobs, job.id = id → kind job.status = true

namespace Compiles

variable {kind : Status → Bool} {s : Server} {id : Nat}

/-- An event keeps it, unless it reports the success of the compilation against the kind. -/
theorem step (h : Compiles kind s id) (hk : Keyed s.db)
    (hkind : ∀ status, kind status = true → status.isBegun = true) (hfailed : kind .failed = true)
    (haborted : kind .compiling = true → kind .aborted = true) (c : Settings) {e : Event}
    (hsuccess : e.isCompiler = true → s.compiler.reported = some id →
      (∃ job ∈ s.db.jobs, job.id = id) → kind .compileSuccess = true) :
    Compiles kind (step c s e) id := by
  have hev := step_evolves c s hk.bounded e
  have hnot {job : Job} (hjob : job ∈ s.db.jobs) (hst : job.status.isBegun = false) : job.id ≠ id := by
    rintro rfl
    rw [hkind _ (h.rows job hjob rfl)] at hst
    cases hst
  refine ⟨h.old.trans_le hev.nextId, h.free.step c hk.bounded ?_ ?_, ?_⟩
  · exact fun job hjob hst => hnot hjob (by rw [hst]; rfl)
  · exact fun _ => h.old.ne'
  · rintro job' hjob' rfl
    rcases hev.origin job' hjob' with ⟨job, hjob, hid, -, hsame | hc⟩ | ⟨hnew, -⟩
    · rw [hsame]
      exact h.rows job hjob hid
    · generalize hst : job'.status = status at hc
      generalize hid' : job'.id = id' at *
      cases hc with
      | blind hw =>
        rcases h.free.of_blind hw with hne | rfl | ⟨rfl, hcompiler, hreported⟩
        · exact absurd rfl hne
        · exact hfailed
        · exact hsuccess hcompiler hreported ⟨job, hjob, hid⟩
      | dropped | compileDropped | cancelledNow => exact hfailed
      | confirmed hrow hrid hp => exact absurd hrid (hnot hrow (by rw [hp]; rfl))
      | confirmedFlash hrow hp =>
        exact absurd rfl (hnot (Database.mem_of_flashCandidate hrow).1 (by rw [hp]; rfl))
      | startedQueued hrow hq =>
        exact absurd rfl (hnot (Database.mem_of_flashCandidate hrow).1 (by rw [hq]; rfl))
      | abortedNow hrow => exact absurd rfl (h.free.activeJob hrow)
      | began hrow hq => exact absurd rfl (hnot hrow (by rw [hq]; rfl))
      | superseded he hrow =>
        -- only a compilation that goes on is active and has begun
        obtain ⟨hmem, -, hactive⟩ := Database.mem_of_activeJobForDevice hrow
        have hrowkind := h.rows _ hmem rfl
        rw [Status.eq_compiling hactive (hkind _ hrowkind)] at hrowkind
        exact haborted hrowkind
    · exact absurd h.old (by omega)

end Compiles

/-- The job is still to be compiled. -/
def Status.isUnbuilt : Status → Bool
  | .compileQueued | .compiling => true
  | _ => false

theorem Worker.not_isUnbuilt {w : Worker} {r : Reply} {status : Status} (h : status ∈ w.outcomes r) :
    status.isUnbuilt = false := by
  cases w <;> simp only [Worker.outcomes] at h <;> grind [Status.isUnbuilt]

/-- No write without a new look at the row puts a job back among those to be compiled. -/
theorem Server.not_isUnbuilt {s : Server} {e : Event} {w : Nat × Status} (h : w ∈ s.blindWrites e) :
    w.2.isUnbuilt = false := by
  cases e with
  | worker r =>
    simp only [Server.blindWrites, List.mem_flatMap, List.mem_map] at h
    obtain ⟨_, -, _, hst, rfl⟩ := h
    exact Worker.not_isUnbuilt hst
  | onStatus state errorDetail now =>
    cases state <;> simp only [Server.blindWrites, OtaState.status] at h <;> grind [Status.isUnbuilt]
  | _ =>
    simp only [Server.blindWrites] at h
    grind [Status.isUnbuilt]

/-- Compile jobs are out of reach of the flash coroutines. -/
structure CompileInv (s : Server) : Prop where
  keyed : Keyed s.db
  bounded : Within (· < s.db.nextId) s
  rows : ∀ job ∈ s.db.jobs, job.status.isUnbuilt = true → Within (· ≠ job.id) s
  cancels : ∀ id ∈ s.cancels, Compiles Status.isBegun s id

namespace CompileInv

variable {s : Server} {e : Event}

/-- At the start there are no jobs at all. -/
theorem fresh (h : Fresh s) : CompileInv s := by
  refine ⟨.fresh h, ?_, ?_, ?_⟩
  · rw [h]
    exact ⟨by simp [Worker.jobId], by simp, by simp, by simp, by simp⟩
  · rw [h]
    simp
  · rw [h]
    simp

/-- The coroutines have hold of jobs only that were created before. -/
theorem step_bounded (h : CompileInv s) (c : Settings) :
    Within (· < (step c s e).db.nextId) (step c s e) := by
  have hle := (step_evolves c s h.keyed.bounded e).nextId
  by_cases he : e.flashes = true
  · have hw := h.bounded.step (e := e) c h.keyed.bounded (fun job hjob _ => h.keyed.bounded job hjob)
      fun hf => by simp [he] at hf
    exact hw.mono fun id hid => hid.trans_le hle
  · refine Within.of_flow (h.bounded.mono fun id hid => hid.trans_le hle)
      (step_flow c s (by simpa using he)) fun job hjob _ => ?_
    exact (h.keyed.step c e).bounded job hjob

/-- A job that is still to be compiled stays out of reach. -/
theorem step_free (h : CompileInv s) (c : Settings) {job : Job} (hjob : job ∈ s.db.jobs)
    (hst : job.status.isUnbuilt = true) : Within (· ≠ job.id) (step c s e) := by
  refine (h.rows job hjob hst).step c h.keyed.bounded ?_ fun _ => (h.keyed.bounded job hjob).ne'
  intro other hother hpending hid
  rw [h.keyed.eq_of_id hother hjob hid] at hpending
  rw [hpending] at hst
  cases hst

/-- A job that is still to be compiled is none of those that the coroutines have hold of. -/
theorem step_rows (h : CompileInv s) (c : Settings) :
    ∀ job ∈ (step c s e).db.jobs, job.status.isUnbuilt = true →
      Within (· ≠ job.id) (step c s e) := by
  intro job' hjob' hst
  have hev := step_evolves c s h.keyed.bounded e
  rcases hev.origin job' hjob' with ⟨job, hjob, hid, -, hsame | hc⟩ | ⟨hid, hbirth⟩
  · rw [← hid]
    exact h.step_free c hjob (hsame ▸ hst)
  · generalize hstatus : job'.status = status at hc
    rw [hstatus] at hst
    generalize job'.id = id at hc
    cases hc with
    | blind hw => simp [Server.not_isUnbuilt hw] at hst
    | began hrow hq => exact h.step_free c hrow (by rw [hq]; rfl)
    | confirmed _ _ _ hcases =>
      rcases hcases with rfl | ⟨rfl, -⟩ <;> cases hst
    | confirmedFlash _ _ hcases =>
      rcases hcases with rfl | ⟨rfl, -⟩ <;> cases hst
    | dropped | startedQueued | abortedNow | compileDropped | cancelledNow | superseded => cases hst
  · -- the job is new: nobody knows its id, and it is not flashed
    generalize hstatus : job'.status = status at hbirth
    generalize job'.mac = mac at hbirth
    cases hbirth with
    | compile =>
      refine Within.of_flow (h.bounded.mono fun id hlt => hid ▸ hlt.ne) (step_flow c s rfl) ?_
      rintro other hother hflash hsame
      rw [(h.keyed.step c _).eq_of_id hother hjob' hsame, hstatus] at hflash
      cases hflash
    | submitted he =>
      refine Within.of_flow (h.bounded.mono fun id hlt => hid ▸ hlt.ne)
        (step_flow c s (Event.not_flashes_of_submission he)) ?_
      rintro other hother hflash hsame
      rw [(h.keyed.step c _).eq_of_id hother hjob' hsame, hstatus] at hflash
      cases hflash
    | startFlash _ hcases =>
      rw [hstatus] at hst
      rcases hcases with rfl | ⟨rfl, -⟩ <;> cases hst
    | uploaded | reflashed | autoFlash =>
      rw [hstatus] at hst
      cases hst

/-- A new cancel is for a job that is being compiled. -/
theorem mem_cancels (c : Settings) {id : Nat} (hid : id ∈ (step c s e).cancels) : id ∈ s.cancels ∨
    ∃ job ∈ s.db.jobs, job.id = id ∧ job.status = .compiling := by
  by_cases he : e.flashes = true
  · by_cases hr : e = .restart
    · rw [hr] at hid
      cases hid
    · have hothers := step_others c s he hr
      simp only [Server.others, Prod.mk.injEq] at hothers
      rw [hothers.2.2.1] at hid
      exact .inl hid
  · cases e with
    | compileCancel mac =>
      simp only [AddOn.step, Server.compileCancel] at hid
      split at hid
      · exact .inl hid
      rename_i job hjob
      split_ifs at hid with hq hst hproc
      · exact .inl hid
      · rcases List.mem_append.1 hid with hid | hid
        · exact .inl hid
        · rw [List.mem_singleton.1 hid]
          exact .inr ⟨job, (Database.mem_of_activeJobForDevice hjob).1, rfl, hst⟩
      · exact .inl hid
      · exact .inl hid
    | cancelReply i =>
      simp only [AddOn.step, Server.cancelReply] at hid
      split at hid
      · exact .inl hid
      · exact .inl (List.mem_of_mem_eraseIdx hid)
    | _ =>
      rw [step_cancels c s (by simpa using he) rfl] at hid
      exact .inl hid

/-- A job that is being compiled is a compile job. -/
theorem compiles (h : CompileInv s) {job : Job} (hjob : job ∈ s.db.jobs)
    (hst : job.status = .compiling) : Compiles Status.isBegun s job.id := by
  refine ⟨h.keyed.bounded job hjob, h.rows job hjob (by rw [hst]; rfl), fun other hother hid => ?_⟩
  rw [h.keyed.eq_of_id hother hjob hid, hst]
  rfl

/-- The invariant is kept by every event. -/
theorem step (h : CompileInv s) (c : Settings) (e : Event) : CompileInv (step c s e) := by
  refine ⟨h.keyed.step c e, h.step_bounded c, h.step_rows c, fun id hid => ?_⟩
  have hcompiles : Compiles Status.isBegun s id := by
    rcases mem_cancels c hid with hid | ⟨job, hjob, rfl, hst⟩
    · exact h.cancels id hid
    · exact h.compiles hjob hst
  exact hcompiles.step h.keyed (fun _ hst => hst) rfl (fun _ => rfl) c fun _ _ _ => rfl

end CompileInv

/-! ## Cancels -/

/-- The compile job that the event marks as cancelled, or takes off the queue. -/
def Server.marks (s : Server) : Event → Option Nat
  | .compileCancel mac => (s.db.activeJobForDevice mac).bind fun job =>
    if job.status = .compileQueued then some job.id
    else if job.status = .compiling ∧ ¬ (job.esphomeName ≠ "" ∧ s.activeProc = some job.esphomeName)
    then some job.id
    else none
  | .cancelReply i => s.cancels[i]?
  | _ => none

/-- The event creates the flash job that follows the compile job. -/
def Server.AutoFlashes (s : Server) (e : Event) (id : Nat) : Prop :=
  e.isCompiler = true ∧ ∃ job ∈ s.compiler.autoFlashing, job.id = id

/-- The compile job is still in compilation when the worker writes that it is done. -/
def CancelUnraced (s : Server) (e : Event) : Prop :=
  e.isCompiler = true → ∀ id ∈ s.compiler.reported,
    ∃ job ∈ s.db.jobs, job.id = id ∧ job.status = .compiling

instance (s : Server) (e : Event) : Decidable (CancelUnraced s e) :=
  inferInstanceAs (Decidable (e.isCompiler = true → ∀ id ∈ s.compiler.reported,
    ∃ job ∈ s.db.jobs, job.id = id ∧ job.status = .compiling))

/-- To cancel a compilation marks its job as failed. -/
theorem Server.cancelled_rows (s : Server) (id : Nat) :
    ∀ job ∈ (s.cancelled id).db.jobs, job.id = id → job.status = .failed :=
  Database.status_of_updateJob fun _ => rfl

/-- No job comes about but through `create_job`. -/
theorem Evolves.ids {P : Nat → Status → Prop} {db db' : Database} (h : Evolves P Nobody db db')
    {job' : Job} (hjob' : job' ∈ db'.jobs) : ∃ job ∈ db.jobs, job.id = job'.id := by
  rcases h.origin job' hjob' with ⟨job, hjob, hid, -⟩ | ⟨-, ⟨⟩⟩
  exact ⟨job, hjob, hid⟩

/-- A job that waits for its compilation is deleted when it is cancelled. -/
theorem not_mem_abortCompileQueuedJob (db : Database) (id : Nat) :
    ∀ job ∈ (db.abortCompileQueuedJob id).jobs, job.id ≠ id := by
  intro job hjob
  have hev : Evolves Never Nobody (db.deleteJob id) (db.abortCompileQueuedJob id) := .renumber _
  obtain ⟨old, hold, hid⟩ := hev.ids hjob
  rw [← hid]
  simpa using (List.mem_filter.1 hold).2

/-- A job is marked. -/
theorem CompileInv.marked {s : Server} (h : CompileInv s) (c : Settings) {e : Event} {id : Nat}
    (he : s.marks e = some id) : Compiles (· == .failed) (AddOn.step c s e) id := by
  have hstep {job : Job} (hjob : job ∈ s.db.jobs) (hst : job.status.isUnbuilt = true)
      (hrows : ∀ row ∈ (AddOn.step c s e).db.jobs, row.id = job.id → row.status = .failed) :
      Compiles (· == .failed) (AddOn.step c s e) job.id := by
    refine ⟨?_, h.step_free c hjob hst, fun row hrow hid => by simp [hrows row hrow hid]⟩
    exact (h.keyed.bounded job hjob).trans_le (step_evolves c s h.keyed.bounded e).nextId
  cases e with
  | compileCancel mac =>
    obtain ⟨job, hjob, hif⟩ := Option.bind_eq_some_iff.1 he
    have hmem := (Database.mem_of_activeJobForDevice hjob).1
    split_ifs at hif with hq hst
    · cases hif
      refine hstep hmem (by rw [hq]; rfl) fun row hrow hid => ?_
      simp only [AddOn.step, Server.compileCancel, hjob, hq, if_true] at hrow
      exact absurd hid (not_mem_abortCompileQueuedJob _ _ row hrow)
    · cases hif
      refine hstep hmem (by rw [hst.1]; rfl) fun row hrow hid => ?_
      simp only [AddOn.step, Server.compileCancel, hjob] at hrow
      rw [if_neg hq, if_pos hst.1, if_neg hst.2] at hrow
      exact s.cancelled_rows job.id row hrow hid
  | cancelReply i =>
    have hi : s.cancels[i]? = some id := he
    have hcompiles := h.cancels id (List.mem_of_getElem? hi)
    have hnext := hcompiles.step h.keyed (fun _ hst => hst) rfl (fun _ => rfl) c
      (e := .cancelReply i) fun _ _ _ => rfl
    refine ⟨hnext.old, hnext.free, fun row hrow hid => ?_⟩
    simp only [AddOn.step, Server.cancelReply, hi] at hrow
    simp [Server.cancelled_rows _ id row hrow hid]
  | _ => cases he

/-- Once an event has marked a compilation as cancelled it stays failed in all that follows, and no
flash job is created from it, in every run in which the compile worker finds its job still compiling
when it comes back from the topology with a binary.  `Compiles` carries the induction: no coroutine
that flashes has hold of the job, or finds it in the table. -/
theorem cancelled_final {c : Settings} {s : Server}
    (hs : Transition.Reachable Fresh CancelUnraced (step c) s) {e : Event} {es : List Event} {id : Nat}
    (hes : Transition.Admits CancelUnraced (step c) s (e :: es)) (he : s.marks e = some id) :
    (∀ job ∈ (Transition.runFrom (step c) s (e :: es)).db.jobs, job.id = id → job.status = .failed) ∧
      ∀ e', CancelUnraced (Transition.runFrom (step c) s (e :: es)) e' →
        ¬ (Transition.runFrom (step c) s (e :: es)).AutoFlashes e' id := by
  have hinv : CompileInv s :=
    hs.invariant (fun _ => .fresh) fun _ e h _ => h.step c e
  have hrun : Transition.Reachable (Eq (step c s e)) CancelUnraced (step c)
      (Transition.runFrom (step c) s (e :: es)) :=
    (Transition.Reachable.start rfl).runFrom hes.2
  have hnot {s : Server} {e : Event} (h : Compiles (· == .failed) s id) (hok : CancelUnraced s e)
      (hcompiler : e.isCompiler = true) : s.compiler.reported ≠ some id := by
    intro hreported
    obtain ⟨job, hjob, hid, hst⟩ := hok hcompiler id hreported
    have hfailed := h.rows job hjob hid
    simp [hst] at hfailed
  have hcancelled : Keyed (Transition.runFrom (step c) s (e :: es)).db ∧
      Compiles (· == .failed) (Transition.runFrom (step c) s (e :: es)) id := by
    refine hrun.invariant (I := fun s => Keyed s.db ∧ Compiles (· == .failed) s id) ?_ ?_
    · rintro _ rfl
      exact ⟨hinv.keyed.step c e, hinv.marked c he⟩
    · intro s e h hok
      refine ⟨h.1.step c e, h.2.step h.1 (fun status hst => ?_) rfl (by decide) c fun hcompiler hreported _ => ?_⟩
      · rw [beq_iff_eq.1 hst]
        rfl
      · exact absurd hreported (hnot h.2 hok hcompiler)
  refine ⟨fun job hjob hid => beq_iff_eq.1 (hcancelled.2.rows job hjob hid), ?_⟩
  rintro e' hok ⟨hcompiler, job, hjob, hid⟩
  refine hnot hcancelled.2 hok hcompiler ?_
  rw [← hid]
  unfold Compiler.autoFlashing at hjob
  split at hjob
  · rename_i hreporting
    split_ifs at hjob
    · cases hjob
      rw [hreporting]
      rfl
    · cases hjob
  · cases hjob

/-- A compilation for the device, up to the point where the binary is there and the worker asks for the
topology. -/
def compilation (autoFlash : Bool) : List Event :=
  [.compiler {}, .compileDeviceConfig porch "porch" autoFlash 0, .compiler {}, .compiler {},
    .compiler {}, .compiler {}]

/-- Without the condition a cancelled compilation succeeds: the cancel comes when the process has
ended, and the worker then writes `compile_success` over it. -/
theorem not_cancelled_final :
    ¬ ∀ s e es id, Transition.Reachable Fresh (fun _ _ => True) (step {}) s → s.marks e = some id →
      (∀ job ∈ (Transition.runFrom (step {}) s (e :: es)).db.jobs, job.id = id →
          job.status = .failed) ∧
        ∀ e', ¬ (Transition.runFrom (step {}) s (e :: es)).AutoFlashes e' id := by
  intro h
  have hrun : Transition.Admits (fun _ _ => True) (step {}) {} (compilation true ++ [.compiler {}]) := by
    decide +kernel
  -- the process has ended when the cancel comes
  have hfinal := (h _ (.compileCancel porch) [.compiler {}] 1 (reachable_runFrom hrun)
    (by decide +kernel)).1
  revert hfinal
  decide +kernel

/-- The cancel comes while the process runs, which it ends. -/
def cancelledInTime : List Event :=
  compilation true ++ [.compileCancel porch, .compiler { error := some "cancelled" }]

/-- A cancel that comes while the process runs is final. -/
theorem cancelled_final_cancelledInTime :
    (Transition.runFrom (step {}) {} cancelledInTime).marks (.cancelReply 0) = some 1 ∧
      ∀ job ∈ (Transition.runFrom (step {}) (Transition.runFrom (step {}) {} cancelledInTime)
        [.cancelReply 0, .compiler {}, .worker {}]).db.jobs, job.id = 1 → job.status = .failed := by
  have hrun : Transition.Admits CancelUnraced (step {}) {} cancelledInTime := by decide +kernel
  have hrest : Transition.Admits CancelUnraced (step {})
      (Transition.runFrom (step {}) {} cancelledInTime) [.cancelReply 0, .compiler {}, .worker {}] := by
    decide +kernel
  have hmark : (Transition.runFrom (step {}) {} cancelledInTime).marks (.cancelReply 0) = some 1 := by
    decide +kernel
  exact ⟨hmark, (cancelled_final (reachable_runFrom hrun) hrest hmark).1⟩

end EspTree.AddOn
