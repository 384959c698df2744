import EspTree.AddOn.Server
import EspTree.Lib.System

/-!
# What an event does to the jobs

`Change` lists every status that an event can write, with what the source has looked at before, and
`Birth` the jobs that it can create.  `step_evolves` says that there are no others.  Where a
constructor knows nothing about the row, the coroutine has not looked at it since its last `await`.

An event is one turn of a coroutine, from one `await` to the next, so the guards of a constructor
are checked and the write is made without anything in between.  `Evolves P Q` is the relation of the
table before and after: each row is as it was, or has a status that `P` allows, or is new and `Q`
allows it, or is gone.  It composes, which is how the lemmas of the functions are put together in the
order of the source.

Every invariant of the later modules is then proved from `step_evolves` by cases on `Change` and
`Birth`, and no proof there unfolds a function of the add-on.
-/

namespace EspTree.AddOn

open Wire

namespace Database

variable {db : Database} {job : Job} {mac : Mac} {status : Status} {id : Nat}

theorem mem_of_getJob (h : db.getJob id = some job) : job ∈ db.jobs ∧ job.id = id :=
  ⟨List.mem_of_find?_eq_some h, by simpa using List.find?_some h⟩

theorem mem_of_activeJob (h : db.activeJob = some job) :
    job ∈ db.jobs ∧ job.status.isFlash = true :=
  List.mem_filter.1 ((List.mem_insertionSort _).1 (List.mem_of_mem_head? h))

theorem byCreation_eq_nil {jobs : List Job} : byCreation jobs = [] ↔ jobs = [] := by
  rw [byCreation, ← List.length_eq_zero_iff, List.length_insertionSort, List.length_eq_zero_iff]

theorem activeJob_eq_none : db.activeJob = none ↔ ∀ job ∈ db.jobs, job.status.isFlash = false := by
  simp [activeJob, byCreation_eq_nil]

theorem mem_of_activeJobForDevice (h : db.activeJobForDevice mac = some job) :
    job ∈ db.jobs ∧ job.mac = mac ∧ job.status.isActive = true := by
  have hmem := List.mem_filter.1 ((List.mem_insertionSort _).1 (List.mem_of_mem_head? h))
  simpa using hmem

theorem activeJobForDevice_eq_none : db.activeJobForDevice mac = none ↔
    ∀ job ∈ db.jobs, job.mac = mac → job.status.isActive = false := by
  simp [activeJobForDevice, byCreation_eq_nil]

theorem mem_of_activeCompileJob (h : db.activeCompileJob = some job) :
    job ∈ db.jobs ∧ job.status = .compiling := by
  have hmem := List.mem_filter.1 ((List.mem_insertionSort _).1 (List.mem_of_mem_head? h))
  simpa using hmem

/-- The job that `compile_start_flash` finds for a device. -/
def flashCandidate (db : Database) (mac : Mac) : Option Job :=
  (db.activeJobForDevice mac).or (db.getJobByMacAndStatus mac .pendingConfirm)

theorem mem_of_getJobByMacAndStatus (h : db.getJobByMacAndStatus mac status = some job) :
    job ∈ db.jobs ∧ job.mac = mac := by
  have hmem := List.mem_filter.1 ((List.mem_insertionSort _).1 (List.mem_of_mem_head? h))
  simp only [Bool.and_eq_true, beq_iff_eq] at hmem
  exact ⟨hmem.1, hmem.2.1⟩

theorem mem_of_flashCandidate (h : db.flashCandidate mac = some job) :
    job ∈ db.jobs ∧ job.mac = mac := by
  rcases Option.or_eq_some_iff.1 h with hactive | ⟨-, hpending⟩
  · exact ⟨(mem_of_activeJobForDevice hactive).1, (mem_of_activeJobForDevice hactive).2.1⟩
  · exact mem_of_getJobByMacAndStatus hpending

theorem status_of_updateJob {f : Job → Job} (hst : ∀ job, (f job).status = status) :
    ∀ job ∈ (db.updateJob id f).jobs, job.id = id → job.status = status := by
  intro job hjob heq
  obtain ⟨old, -, rfl⟩ := List.mem_map.1 hjob
  split_ifs at heq ⊢ with hold
  · exact hst old
  · exact absurd heq hold

end Database

/-- The jobs after some writes: a job has kept its status or has been given one that `P` allows, or
it is new and `Q` allows it.  Jobs may be gone. -/
structure Evolves (P : Nat → Status → Prop) (Q : Mac → Status → Prop) (db db' : Database) :
    Prop where
  nextId : db.nextId ≤ db'.nextId
  same (h : ∀ mac status, ¬ Q mac status) : db'.nextId = db.nextId
  unique (h : (db.jobs.map (·.id)).Nodup) (hlt : ∀ job ∈ db.jobs, job.id < db.nextId) :
    (db'.jobs.map (·.id)).Nodup
  bounded (h : ∀ job ∈ db.jobs, job.id < db.nextId) : ∀ job ∈ db'.jobs, job.id < db'.nextId
  origin : ∀ job' ∈ db'.jobs,
    (∃ job ∈ db.jobs, job.id = job'.id ∧ job.mac = job'.mac ∧
      (job'.status = job.status ∨ P job'.id job'.status)) ∨
    (job'.id = db.nextId ∧ Q job'.mac job'.status)

/-- Nothing is written. -/
def Never (_ : Nat) (_ : Status) : Prop := False

/-- Nothing is created. -/
def Nobody (_ : Mac) (_ : Status) : Prop := False

namespace Evolves

variable {P P' : Nat → Status → Prop} {Q Q' : Mac → Status → Prop} {db db' db'' : Database}

theorem refl : Evolves P Q db db where
  nextId := le_rfl
  same _ := rfl
  unique h _ := h
  bounded h := h
  origin job hjob := .inl ⟨job, hjob, rfl, rfl, .inl rfl⟩

theorem mono (h : Evolves P Q db db') (hP : ∀ id status, P id status → P' id status)
    (hQ : ∀ mac status, Q mac status → Q' mac status) : Evolves P' Q' db db' where
  nextId := h.nextId
  same hnone := h.same fun mac status hq => hnone mac status (hQ mac status hq)
  unique := h.unique
  bounded := h.bounded
  origin job' hjob' := by
    rcases h.origin job' hjob' with ⟨job, hjob, hid, hmac, hstatus⟩ | ⟨hid, hq⟩
    · exact .inl ⟨job, hjob, hid, hmac, hstatus.imp_right (hP _ _)⟩
    · exact .inr ⟨hid, hQ _ _ hq⟩

theorem trans (h : Evolves P Nobody db db') (h' : Evolves P Q db' db'') : Evolves P Q db db'' where
  nextId := h.nextId.trans h'.nextId
  same hnone := (h'.same hnone).trans (h.same fun _ _ hq => hq)
  unique hn hlt := h'.unique (h.unique hn hlt) (h.bounded hlt)
  bounded hlt := h'.bounded (h.bounded hlt)
  origin job'' hjob'' := by
    rcases h'.origin job'' hjob'' with ⟨job', hjob', hid', hmac', hstatus'⟩ | ⟨hid, hq⟩
    · rcases h.origin job' hjob' with ⟨job, hjob, hid, hmac, hstatus⟩ | ⟨-, ⟨⟩⟩
      refine .inl ⟨job, hjob, hid.trans hid', hmac.trans hmac', ?_⟩
      rcases hstatus' with hstatus' | hp
      · rw [hstatus', ← hid']
        exact hstatus
      · exact .inr hp
    · exact .inr ⟨hid.trans (h.same fun _ _ hq => hq), hq⟩

/-- Nothing is written or created, before something is. -/
theorem after (h : Evolves Never Nobody db db') (h' : Evolves P Q db' db'') : Evolves P Q db db'' :=
  (h.mono (fun _ _ hn => hn.elim) fun _ _ hn => hn).trans h'

/-- Nothing is written or created, after something is. -/
theorem before (h : Evolves P Nobody db db') (h' : Evolves Never Nobody db' db'') :
    Evolves P Q db db'' :=
  h.trans (h'.mono (fun _ _ hn => hn.elim) fun _ _ hn => hn.elim)

/-- Old jobs are written after new ones are created. -/
theorem then_write (h : Evolves P Q db db') (h' : Evolves P' Nobody db' db'')
    (hold : ∀ id status, P' id status → id < db.nextId ∧ P id status) : Evolves P Q db db'' where
  nextId := h.nextId.trans h'.nextId
  same hnone := (h'.same fun _ _ hq => hq).trans (h.same hnone)
  unique hn hlt := h'.unique (h.unique hn hlt) (h.bounded hlt)
  bounded hlt := h'.bounded (h.bounded hlt)
  origin job'' hjob'' := by
    rcases h'.origin job'' hjob'' with ⟨job', hjob', hid', hmac', hstatus'⟩ | ⟨-, ⟨⟩⟩
    rcases h.origin job' hjob' with ⟨job, hjob, hid, hmac, hstatus⟩ | ⟨hnew, hq⟩
    · refine .inl ⟨job, hjob, hid.trans hid', hmac.trans hmac', ?_⟩
      rcases hstatus' with hstatus' | hp
      · rw [hstatus', ← hid']
        exact hstatus
      · exact .inr (hold _ _ hp).2
    · rcases hstatus' with hstatus' | hp
      · rw [hstatus', ← hmac', ← hid']
        exact .inr ⟨hnew, hq⟩
      · exact absurd (hold _ _ hp).1 (by omega)

/-- An update that leaves ids and addresses as they are. -/
theorem update {id : Nat} {f : Job → Job} (hid : ∀ job, (f job).id = job.id)
    (hmac : ∀ job, (f job).mac = job.mac)
    (hstatus : ∀ job, (f job).status = job.status ∨ P id (f job).status) :
    Evolves P Q db (db.updateJob id f) where
  nextId := le_rfl
  same _ := rfl
  unique h _ := by
    have hids : (db.updateJob id f).jobs.map (·.id) = db.jobs.map (·.id) := by
      rw [Database.updateJob, List.map_map]
      refine List.map_congr_left fun job _ => ?_
      by_cases hj : job.id = id <;> simp [hj, hid]
    rwa [hids]
  bounded h job' hjob' := by
    obtain ⟨job, hjob, rfl⟩ := List.mem_map.1 hjob'
    have hlt := h job hjob
    by_cases hj : job.id = id
    · simpa [hj, hid, Database.updateJob] using hj ▸ hlt
    · simpa [hj, Database.updateJob] using hlt
  origin job' hjob' := by
    obtain ⟨job, hjob, rfl⟩ := List.mem_map.1 hjob'
    refine .inl ⟨job, hjob, ?_⟩
    by_cases hj : job.id = id
    · rw [if_pos hj]
      refine ⟨(hid job).symm, (hmac job).symm, ?_⟩
      rw [hid, hj]
      exact hstatus job
    · rw [if_neg hj]
      exact ⟨rfl, rfl, .inl rfl⟩

/-- A new status for one job. -/
theorem write {id : Nat} {status : Status} {f : Job → Job} (hid : ∀ job, (f job).id = job.id)
    (hmac : ∀ job, (f job).mac = job.mac) (hstatus : ∀ job, (f job).status = status)
    (hp : P id status) : Evolves P Q db (db.updateJob id f) :=
  update hid hmac fun job => .inr ((hstatus job).symm ▸ hp)

/-- An update that leaves the status as it is, too. -/
theorem touch {id : Nat} {f : Job → Job} (hid : ∀ job, (f job).id = job.id)
    (hmac : ∀ job, (f job).mac = job.mac) (hstatus : ∀ job, (f job).status = job.status) :
    Evolves P Q db (db.updateJob id f) :=
  update hid hmac fun job => .inl (hstatus job)

theorem delete (id : Nat) : Evolves P Q db (db.deleteJob id) where
  nextId := le_rfl
  same _ := rfl
  unique h _ := h.sublist (List.filter_sublist.map _)
  bounded h job hjob := h job (List.mem_filter.1 hjob).1
  origin job hjob := .inl ⟨job, (List.mem_filter.1 hjob).1, rfl, rfl, .inl rfl⟩

theorem create {values : Job} (now : Nat) (hq : Q values.mac values.status) :
    Evolves P Q db (db.createJob values now).1 where
  nextId := Nat.le_succ _
  same hnone := absurd hq (hnone _ _)
  unique h hlt := by
    rw [Database.createJob, List.map_append]
    refine h.append (List.nodup_singleton _) ?_
    rw [List.map_singleton, List.disjoint_singleton]
    intro hmem
    obtain ⟨job, hjob, hid⟩ := List.mem_map.1 hmem
    exact absurd hid (hlt job hjob).ne
  bounded h job hjob := by
    rcases List.mem_append.1 hjob with hjob | hjob
    · exact (h job hjob).trans (Nat.lt_succ_self _)
    · rw [List.mem_singleton.1 hjob]
      exact Nat.lt_succ_self _
  origin job hjob := by
    rcases List.mem_append.1 hjob with hjob | hjob
    · exact .inl ⟨job, hjob, rfl, rfl, .inl rfl⟩
    · rw [List.mem_singleton.1 hjob]
      exact .inr ⟨rfl, hq⟩

theorem renumber (ids : List Nat) : Evolves Never Nobody db (db.renumber ids) := by
  unfold Database.renumber
  generalize ids.zipIdx = places
  induction places generalizing db with
  | nil => exact refl
  | cons place places ih =>
    refine trans ?_ ih
    exact touch (fun _ => rfl) (fun _ => rfl) fun _ => rfl

theorem abortQueued (id : Nat) : Evolves Never Nobody db (db.abortQueuedJob id) :=
  (delete id).trans (renumber _)

theorem abortCompileQueued (id : Nat) : Evolves Never Nobody db (db.abortCompileQueuedJob id) :=
  (delete id).trans (renumber _)

theorem reorder (id newOrder : Nat) : Evolves Never Nobody db (db.reorderQueue id newOrder) := by
  unfold Database.reorderQueue
  dsimp only
  split
  · exact refl
  · exact renumber _

theorem markTerminal {id : Nat} {status : Status} (errorMsg : Option String) (hp : P id status) :
    Evolves P Q db (db.markTerminal id status errorMsg) :=
  write (fun _ => rfl) (fun _ => rfl) (fun _ => rfl) hp

/-- The other fields of the server do not matter. -/
theorem congr {s : Server} (h : Evolves P Q s.db db') (hdb : s.db = db) : Evolves P Q db db' :=
  hdb ▸ h

theorem clearFirmware (id : Nat) : Evolves P Q db (db.clearJobFirmware id) :=
  touch (fun _ => rfl) (fun _ => rfl) fun _ => rfl

end Evolves

/-! ## The list of writes -/

/-- The job of which the worker writes the status when it goes on, without another look at it. -/
def Worker.writes : Worker → Reply → Option Nat
  | .dequeuing job, r =>
    match r.topology with
    | .found node => if node.online then some job.id else none
    | _ => none
  | .connecting job waited, r =>
    if (if r.connected then r.client = false else 15 ≤ waited + 1) then some job.id else none
  | .preparing job, _ => if job.firmwarePath = none then some job.id else none
  | .starting job _, _ | .flushSending job _ _, _ | .flushAborting job _ _, _ | .aborting job _, _ =>
    some job.id
  | .rejoinUptime job deadline, r | .rejoinSleeping job _ deadline, r =>
    if deadline < r.now then some job.id else none
  | .rejoining job uptime _, r =>
    match r.topology with
    | .found node =>
      if node.online ∧ uptime.all (fun before => decide (node.uptimeS.getD 0 < before)) then
        some job.id else none
    | _ => none
  | _, _ => none

/-- The statuses that it can write. -/
def Worker.outcomes : Worker → Reply → List Status
  | .dequeuing _, _ => [.starting]
  | .connecting _ _, _ | .aborting _ _, _ => [.failed]
  | .preparing _, _ => [.queued, .failed]
  | .starting _ _, r | .flushSending _ _ _, r =>
    if r.error = none then [.transferring] else [.queued, .failed]
  | .flushAborting _ _ _, _ => [.failed, .transferring]
  | .rejoinUptime _ _, _ | .rejoinSleeping _ _ _, _ => [.rejoinTimeout]
  | .rejoining _ _ _, _ => [.success, .versionMismatch]
  | _, _ => []

/-- The status that goes with a state of the bridge. -/
def OtaState.status : OtaState → Option Status
  | .announcing => some .announcing
  | .transferring => some .transferring
  | .verifying => some .verifying
  | .success => some .waitingRejoin
  | .failed | .aborted => some .failed
  | .other => none

/-- The statuses that a coroutine writes when it goes on after an `await`, or a callback when the
bridge reports, without a look at what the job has become. -/
def Server.blindWrites (s : Server) : Event → List (Nat × Status)
  | .worker r => (s.worker.writes r).toList.flatMap fun id => (s.worker.outcomes r).map (id, ·)
  | .chunkReply i failed _ => (s.callbacks[i]?).toList.flatMap fun callback =>
    if ¬ callback.sending then [(callback.job, .failed)]
    else if failed then []
    else [(callback.job, .transferring)]
  | .onStatus state _ _ => s.flash.toList.flatMap fun f => state.status.toList.map (f.job, ·)
  | .onAborted _ _ => s.flash.toList.map fun f => (f.job, .failed)
  | .abortReply i _ _ => (s.aborts[i]?).toList.map fun job => (job.id, .aborted)
  | .compiler r =>
    match s.compiler with
    | .installing job | .running job => if r.error.isSome then [(job.id, .failed)] else []
    | .reporting job _ => [(job.id, .compileSuccess)]
    | _ => []
  | .cancelReply i => (s.cancels[i]?).toList.map fun id => (id, .failed)
  | _ => []

/-- An event writes blindly for one job. -/
theorem Server.blindWrites_id {s : Server} {e : Event} {w w' : Nat × Status}
    (h : w ∈ s.blindWrites e) (h' : w' ∈ s.blindWrites e) : w.1 = w'.1 := by
  cases e <;> simp only [Server.blindWrites] at h h' <;> grind

/-- The compile worker writes no active status blindly. -/
theorem Server.not_isActive_of_compiler {s : Server} {r : Reply} {w : Nat × Status}
    (h : w ∈ s.blindWrites (.compiler r)) : w.2.isActive = false := by
  simp only [Server.blindWrites] at h
  split at h <;> grind [Status.isActive]

/-- The event lets a `flash_wizard_submit` queue its compilation, for this name and at this time. -/
def Server.submission (s : Server) : Event → Option (String × Nat)
  | .flashWizardSubmit esphomeName board configured now =>
    if esphomeName ≠ "" ∧ board ∧ s.activeProc ≠ some esphomeName ∧ configured then some (esphomeName, now)
    else none
  | .submitReply i configured now => if configured then s.submits[i]?.map (·, now) else none
  | _ => none

/-- The status writes of an event. -/
inductive Change (s : Server) : Event → Nat → Status → Prop
  | blind {e : Event} {id : Nat} {status : Status} (h : (id, status) ∈ s.blindWrites e) :
      Change s e id status
  | dropped {r : Reply} {job : Job} (hw : s.worker = .boot ∨ s.worker = .top)
      (hjob : s.db.activeJob = some job) : Change s (.worker r) job.id .failed
  | confirmed {id : Nat} {job : Job} {status : Status} (hjob : job ∈ s.db.jobs) (hid : job.id = id)
      (hpending : job.status = .pendingConfirm)
      (hst : status = .queued ∨ status = .starting ∧ s.db.flashWorkPending (some id) = false) :
      Change s (.otaStart id) id status
  | confirmedFlash {mac : Mac} {now : Nat} {job : Job} {status : Status}
      (hjob : s.db.flashCandidate mac = some job) (hpending : job.status = .pendingConfirm)
      (hst : status = .queued ∨ status = .starting ∧ s.db.flashWorkPending (some job.id) = false) :
      Change s (.compileStartFlash mac now) job.id status
  | startedQueued {mac : Mac} {now : Nat} {job : Job} (hjob : s.db.flashCandidate mac = some job)
      (hq : job.status = .queued) (hactive : s.db.activeJob.any (·.id != job.id) = false) :
      Change s (.compileStartFlash mac now) job.id .starting
  | abortedNow {connected client : Bool} {now : Nat} {job : Job} (hjob : s.db.activeJob = some job) :
      Change s (.otaAbort connected client now) job.id .aborted
  | compileDropped {r : Reply} {job : Job} (hw : s.compiler = .boot ∨ s.compiler = .top)
      (hjob : s.db.activeCompileJob = some job) : Change s (.compiler r) job.id .failed
  | began {r : Reply} {job : Job} (hjob : job ∈ s.db.jobs) (hq : job.status = .compileQueued) :
      Change s (.compiler r) job.id .compiling
  | cancelledNow {mac : Mac} {job : Job} (hjob : s.db.activeJobForDevice mac = some job)
      (hst : job.status = .compiling) : Change s (.compileCancel mac) job.id .failed
  | superseded {e : Event} {job : Job} (he : (s.submission e).isSome = true)
      (hjob : s.db.activeJobForDevice Server.placeholderMac = some job) : Change s e job.id .aborted

namespace Change

variable {s : Server} {r : Reply} {i id now : Nat} {status : Status}

theorem worker (hw : s.worker.writes r = some id) (hst : status ∈ s.worker.outcomes r) :
    Change s (.worker r) id status :=
  .blind (by simp [Server.blindWrites, hw, hst])

theorem chunkSent {callback : Callback} (hi : s.callbacks[i]? = some callback)
    (hs : callback.sending = true) : Change s (.chunkReply i false now) callback.job .transferring :=
  .blind (by simp [Server.blindWrites, hi, hs])

theorem chunkTimedOut {failed : Bool} {callback : Callback} (hi : s.callbacks[i]? = some callback)
    (hs : callback.sending = false) : Change s (.chunkReply i failed now) callback.job .failed :=
  .blind (by simp [Server.blindWrites, hi, hs])

theorem reported {state : OtaState} {errorDetail : String} {f : Flash} (hf : s.flash = some f)
    (hst : state.status = some status) : Change s (.onStatus state errorDetail now) f.job status :=
  .blind (by simp [Server.blindWrites, hf, hst])

theorem bridgeAborted {reason : String} {f : Flash} (hf : s.flash = some f) :
    Change s (.onAborted reason now) f.job .failed :=
  .blind (by simp [Server.blindWrites, hf])

theorem aborted {failed : Bool} {job : Job} (hi : s.aborts[i]? = some job) :
    Change s (.abortReply i failed now) job.id .aborted :=
  .blind (by simp [Server.blindWrites, hi])

theorem compileFailed {job : Job} (hw : s.compiler = .installing job ∨ s.compiler = .running job)
    (herror : r.error.isSome = true) : Change s (.compiler r) job.id .failed := by
  refine .blind ?_
  rcases hw with hw | hw <;> simp [Server.blindWrites, hw, herror]

theorem compiled {job : Job} {path : Path} (hw : s.compiler = .reporting job path) :
    Change s (.compiler r) job.id .compileSuccess :=
  .blind (by simp [Server.blindWrites, hw])

theorem cancelled (hi : s.cancels[i]? = some id) : Change s (.cancelReply i) id .failed :=
  .blind (by simp [Server.blindWrites, hi])

end Change

/-- The jobs that an event creates. -/
inductive Birth (s : Server) : Event → Mac → Status → Prop
  | uploaded {i now : Nat} {found valid : Bool} {version : String} {mac : Mac} :
      Birth s (.uploadReply i found valid version now) mac .pendingConfirm
  | reflashed {id now : Nat} {mac : Mac} : Birth s (.otaReflash id now) mac .pendingConfirm
  | compile {mac : Mac} {esphomeName : String} {autoFlash : Bool} {now : Nat}
      (h : s.db.activeJobForDevice mac = none) :
      Birth s (.compileDeviceConfig mac esphomeName autoFlash now) mac .compileQueued
  | autoFlash {r : Reply} {job : Job} {path : Path} (hw : s.compiler = .reporting job path)
      (ha : job.autoFlash = true) : Birth s (.compiler r) job.mac .queued
  | startFlash {mac : Mac} {now : Nat} {status : Status} (h : s.db.flashCandidate mac = none)
      (hst : status = .queued ∨ status = .starting ∧ s.db.flashWorkPending none = false) :
      Birth s (.compileStartFlash mac now) mac status
  | submitted {e : Event} (he : (s.submission e).isSome = true) :
      Birth s e Server.placeholderMac .compileQueued

/-! ## The functions of the workers -/

namespace Server

variable (c : Settings) (s : Server) (r : Reply) {P : Nat → Status → Prop} {Q : Mac → Status → Prop}

theorem finish_evolves {id : Nat} {status : Status} (errorMsg : Option String) (now : Nat)
    (hp : P id status) : Evolves P Q s.db (s.finish c id status errorMsg now).db := by
  unfold finish
  split
  · exact .refl
  · refine Evolves.trans ?_ (.markTerminal errorMsg hp)
    exact .touch (fun _ => rfl) (fun _ => rfl) fun _ => rfl

theorem fail_evolves {id : Nat} (message : String) (now : Nat) (hp : P id .failed) :
    Evolves P Q s.db (s.fail c id message now).db :=
  s.finish_evolves c (some message) now hp

theorem handleDequeueFailure_evolves (job : Job) (reason : String) :
    Evolves P Q s.db (s.handleDequeueFailure job reason).db := by
  unfold handleDequeueFailure
  dsimp only
  split_ifs <;> exact .touch (fun _ => rfl) (fun _ => rfl) fun _ => rfl

theorem dequeueNext_evolves : Evolves P Q s.db (s.dequeueNext r).db := by
  unfold dequeueNext
  split
  · exact .refl
  · split_ifs
    · exact .refl
    · exact handleDequeueFailure_evolves s _ _

theorem endTurn_evolves : Evolves P Q s.db (s.endTurn r).db := by
  unfold endTurn
  split_ifs
  · exact .refl
  · exact s.dequeueNext_evolves r

theorem close_evolves : Evolves P Q s.db (s.close r).db :=
  endTurn_evolves ({ s with flash := none } : Server) r

theorem cleanupExpiredFiles_evolves (now : Nat) : Evolves P Q s.db (s.cleanupExpiredFiles now).db := by
  unfold cleanupExpiredFiles
  generalize s.db.expiredRetained now = jobs
  induction jobs generalizing s with
  | nil => exact .refl
  | cons job jobs ih =>
    rw [List.foldl_cons]
    refine Evolves.trans ?_ (ih _)
    exact .clearFirmware job.id

theorem recoverStartup_evolves (now : Nat)
    (hp : ∀ job, s.db.activeJob = some job → P job.id .failed) :
    Evolves P Q s.db (s.recoverStartup c now).db := by
  have hdrop (jobs : List Job) (s : Server) : Evolves Never Nobody s.db (jobs.foldl (fun s job =>
      { s with store := s.store.deleteFile job.firmwarePath, db := s.db.abortQueuedJob job.id })
        s).db := by
    induction jobs generalizing s with
    | nil => exact .refl
    | cons job jobs ih =>
      rw [List.foldl_cons]
      refine Evolves.trans ?_ (ih _)
      exact .abortQueued job.id
  unfold recoverStartup
  dsimp only
  split
  · exact (hdrop _ s).after .refl
  · rename_i job hjob
    exact (s.fail_evolves c _ now (hp job hjob)).before (hdrop _ _)

theorem rejoinLoop_evolves (job : Job) (uptime : Option Nat) (deadline : Nat)
    (hp : deadline < r.now → P job.id .rejoinTimeout) :
    Evolves P Q s.db (s.rejoinLoop c r job uptime deadline).db := by
  unfold rejoinLoop
  split_ifs with hlate
  · exact (s.finish_evolves c _ r.now (hp hlate)).before (close_evolves _ r)
  · split
    · exact s.close_evolves r
    · split_ifs
      · exact s.close_evolves r
      · exact .refl

theorem waitForRejoin_evolves (job : Job) (uptime : Option Nat) :
    Evolves P Q s.db (s.waitForRejoin c r job uptime).db := by
  unfold waitForRejoin
  dsimp only
  split_ifs
  · exact .refl
  · exact s.rejoinLoop_evolves c r job uptime _ fun h => absurd h (by omega)

theorem rejoined_evolves (job : Job) (node : Node) (hsuccess : P job.id .success)
    (hmismatch : P job.id .versionMismatch) : Evolves P Q s.db (s.rejoined c r job node).db := by
  unfold rejoined
  dsimp only
  split_ifs
  · exact (s.finish_evolves c _ r.now hmismatch).before (close_evolves _ r)
  · exact (s.finish_evolves c _ r.now hsuccess).before (close_evolves _ r)

theorem transferLoop_evolves (job : Job) (uptime : Option Nat) :
    Evolves P Q s.db (s.transferLoop c r job uptime).db := by
  unfold transferLoop
  split
  · exact s.close_evolves r
  · split_ifs
    · exact s.close_evolves r
    · exact .refl
    · exact .refl

theorem setStatus_evolves {id : Nat} {status : Status} (hp : P id status) :
    Evolves P Q s.db (s.setStatus id status).db :=
  .write (fun _ => rfl) (fun _ => rfl) (fun _ => rfl) hp

theorem startFailed_evolves (job : Job) (message : String) (hqueued : P job.id .queued)
    (hfailed : P job.id .failed) : Evolves P Q s.db (s.startFailed c r job message).db := by
  unfold startFailed
  split_ifs
  · refine Evolves.trans ?_ (close_evolves _ r)
    exact .write (fun _ => rfl) (fun _ => rfl) (fun _ => rfl) hqueued
  · refine Evolves.trans ?_ (close_evolves _ r)
    exact .congr (fail_evolves c _ _ r.now hfailed) rfl

theorem flush_evolves (job : Job) (uptime : Option Nat) (n : Nat) (hp : P job.id .transferring) :
    Evolves P Q s.db (flush c r job uptime n s).db := by
  have hdone (s : Server) :
      Evolves P Q s.db ((s.setStatus job.id .transferring).transferLoop c r job uptime).db :=
    (s.setStatus_evolves hp).trans (transferLoop_evolves c _ r job uptime)
  induction n generalizing s with
  | zero =>
    unfold flush
    exact hdone s
  | succ n ih =>
    unfold flush
    split
    · rename_i f heq hf
      cases heq
      dsimp only
      split
      · exact .congr (ih _) rfl
      · exact .refl
      · exact .refl
    · exact hdone s

theorem setTerminal_db (run : Nat) : (s.setTerminal run).db = s.db := rfl

theorem processConnected_evolves (job : Job) (hp : r.client = false → P job.id .failed) :
    Evolves P Q s.db (s.processConnected c r job).db := by
  unfold processConnected
  dsimp only
  split_ifs with hclient
  · exact .touch (fun _ => rfl) (fun _ => rfl) fun _ => rfl
  · exact .congr (transferLoop_evolves c _ r job none) rfl
  · refine Evolves.trans ?_ (endTurn_evolves _ r)
    exact s.fail_evolves c _ r.now (hp (by simpa using hclient))

/-- The worker gives up a job that it has just looked at. -/
theorem process_evolves (job : Job) (hp : P job.id .failed) :
    Evolves P Q s.db (s.process c r job).db := by
  unfold process
  split
  · exact s.endTurn_evolves r
  rename_i current hcurrent
  have hid : current.id = job.id := by simpa using List.find?_some hcurrent
  rw [← hid] at hp
  have hgive (message : String) :
      Evolves P Q s.db ((s.fail c current.id message r.now).endTurn r).db :=
    (s.fail_evolves c message r.now hp).trans (endTurn_evolves _ r)
  split_ifs
  · exact s.endTurn_evolves r
  · exact s.waitForRejoin_evolves c r current none
  · exact hgive _
  · exact s.processConnected_evolves c r current fun _ => hp
  · exact .refl
  · exact hgive _

theorem workerStep_evolves : Evolves (Change s (.worker r)) Q s.db (s.workerStep c r).db := by
  unfold workerStep
  split
  · rename_i hw
    exact s.recoverStartup_evolves c r.now fun job hjob => .dropped (.inl hw) hjob
  · rename_i hw
    split
    · rename_i job hjob
      exact s.process_evolves c r job (.dropped (.inr hw) hjob)
    · exact .refl
  · refine Evolves.trans ?_ (endTurn_evolves _ r)
    split_ifs
    · exact s.cleanupExpiredFiles_evolves r.now
    · exact .refl
  · rename_i job hw
    unfold dequeued
    split
    · exact s.handleDequeueFailure_evolves job _
    · exact s.handleDequeueFailure_evolves job _
    · rename_i node hnode
      split_ifs with hon
      · refine .write (fun _ => rfl) (fun _ => rfl) (fun _ => rfl) (.worker ?_ ?_)
        · simp [hw, Worker.writes, hnode, hon]
        · simp [hw, Worker.outcomes]
      · exact s.handleDequeueFailure_evolves job _
  · rename_i job waited hw
    split_ifs with hc hwait
    · refine s.processConnected_evolves c r job fun hclient => .worker ?_ ?_
      · simp [hw, Worker.writes, hc, hclient]
      · simp [hw, Worker.outcomes]
    · exact .refl
    · refine Evolves.trans (s.fail_evolves c _ r.now (.worker ?_ ?_)) (endTurn_evolves _ r)
      · simp [hw, Worker.writes, hc]
        omega
      · simp [hw, Worker.outcomes]
  · rename_i job hw
    split_ifs with hpath
    · refine s.startFailed_evolves c r job _ (.worker ?_ ?_) (.worker ?_ ?_) <;>
        simp [hw, Worker.writes, Worker.outcomes, hpath]
    · exact .refl
  · rename_i job uptime hw
    split
    · rename_i message herror
      refine s.startFailed_evolves c r job _ (.worker ?_ ?_) (.worker ?_ ?_) <;>
        simp [hw, Worker.writes, Worker.outcomes, herror]
    · rename_i herror
      refine .congr (flush_evolves c _ r job uptime _ (.worker ?_ ?_)) rfl <;>
        simp [hw, Worker.writes, Worker.outcomes, herror]
  · rename_i job uptime n hw
    split
    · rename_i message herror
      refine s.startFailed_evolves c r job _ (.worker ?_ ?_) (.worker ?_ ?_) <;>
        simp [hw, Worker.writes, Worker.outcomes, herror]
    · rename_i herror
      have hp : Change s (.worker r) job.id .transferring := by
        refine .worker ?_ ?_ <;> simp [hw, Worker.writes, Worker.outcomes, herror]
      exact (s.setStatus_evolves hp).trans (flush_evolves c _ r job uptime n hp)
  · rename_i job uptime n hw
    have hp : Change s (.worker r) job.id .transferring := by
      refine .worker ?_ ?_ <;> simp [hw, Worker.writes, Worker.outcomes]
    have hfail : Change s (.worker r) job.id .failed := by
      refine .worker ?_ ?_ <;> simp [hw, Worker.writes, Worker.outcomes]
    refine Evolves.trans (s.fail_evolves c "OTA transfer timed out" r.now hfail)
      (.congr (flush_evolves c _ r job uptime n hp) ?_)
    cases (s.fail c job.id "OTA transfer timed out" r.now).flash <;> rfl
  · split
    · exact s.close_evolves r
    · split_ifs
      · exact s.waitForRejoin_evolves c r _ _
      · exact s.close_evolves r
      · exact .refl
      · exact s.transferLoop_evolves c r _ _
  · rename_i job message hw
    refine Evolves.trans (s.fail_evolves c _ r.now (.worker ?_ ?_)) (close_evolves _ r) <;>
      simp [hw, Worker.writes, Worker.outcomes]
  · rename_i job deadline hw
    refine s.rejoinLoop_evolves c r job _ deadline fun hlate => .worker ?_ ?_ <;>
      simp [hw, Worker.writes, Worker.outcomes, hlate]
  · rename_i job uptime deadline hw
    split
    · rename_i node hnode
      split_ifs with hback
      · refine s.rejoined_evolves c r job node (.worker ?_ ?_) (.worker ?_ ?_) <;>
          simp [hw, Worker.writes, Worker.outcomes, hnode, hback]
      · exact .refl
    · exact .refl
  · rename_i job uptime deadline hw
    refine s.rejoinLoop_evolves c r job _ deadline fun hlate => .worker ?_ ?_ <;>
      simp [hw, Worker.writes, Worker.outcomes, hlate]

/-! ## Callbacks and endpoints -/

theorem chunkRequest_evolves (now : Nat) : Evolves P Q s.db (s.chunkRequest c now).db := by
  unfold chunkRequest
  split
  · exact .refl
  · split_ifs
    · dsimp only
      split <;> exact .refl
    · exact .refl

theorem chunkReply_evolves (i : Nat) (failed : Bool) (now : Nat) :
    Evolves (Change s (.chunkReply i failed now)) Q s.db (s.chunkReply c i failed now).db := by
  unfold chunkReply
  split
  · exact .refl
  rename_i callback hi
  dsimp only
  split_ifs with hs hf
  · exact .refl
  · cases (Bool.not_eq_true failed).mp hf
    exact .write (fun _ => rfl) (fun _ => rfl) (fun _ => rfl) (.chunkSent hi hs)
  · rw [setTerminal_db]
    exact .congr (fail_evolves c _ _ now (.chunkTimedOut hi (by simpa using hs))) rfl

theorem onStatus_evolves (state : OtaState) (errorDetail : String) (now : Nat) :
    Evolves (Change s (.onStatus state errorDetail now)) Q s.db
      (s.onStatus c state errorDetail now).db := by
  unfold onStatus
  split
  · exact .refl
  rename_i f hf
  cases state with
  | announcing => exact .write (fun _ => rfl) (fun _ => rfl) (fun _ => rfl) (.reported hf rfl)
  | transferring => exact .write (fun _ => rfl) (fun _ => rfl) (fun _ => rfl) (.reported hf rfl)
  | verifying => exact .write (fun _ => rfl) (fun _ => rfl) (fun _ => rfl) (.reported hf rfl)
  | success => exact .write (fun _ => rfl) (fun _ => rfl) (fun _ => rfl) (.reported hf rfl)
  | failed => exact .congr (fail_evolves c _ _ now (.reported hf rfl)) rfl
  | aborted => exact .congr (fail_evolves c _ _ now (.reported hf rfl)) rfl
  | other => exact .touch (fun _ => rfl) (fun _ => rfl) fun _ => rfl

theorem onAborted_evolves (reason : String) (now : Nat) :
    Evolves (Change s (.onAborted reason now)) Q s.db (s.onAborted c reason now).db := by
  unfold onAborted
  split
  · exact .refl
  · rename_i f hf
    exact s.fail_evolves c _ now (.bridgeAborted hf)

theorem otaUpload_evolves (mac : Mac) : Evolves P Q s.db (s.otaUpload mac).db := by
  unfold otaUpload
  split
  · exact .refl
  · dsimp only
    split
    · exact .refl
    · exact (Evolves.abortQueued _).after .refl

theorem uploadReply_evolves (i : Nat) (found valid : Bool) (version : String) (now : Nat) :
    Evolves P (Birth s (.uploadReply i found valid version now)) s.db
      (s.uploadReply i found valid version now).db := by
  unfold uploadReply
  split
  · exact .refl
  · split_ifs
    · exact .create now .uploaded
    · exact .refl
    · exact .refl
    · exact .refl

theorem confirm_evolves (id : Nat) (hp : ∀ status, status = .queued ∨
    status = .starting ∧ s.db.flashWorkPending (some id) = false → P id status) :
    Evolves P Q s.db (s.confirm id).db := by
  unfold confirm
  split_ifs with hwork
  · exact .write (fun _ => rfl) (fun _ => rfl) (fun _ => rfl) (hp _ (.inl rfl))
  · exact .write (fun _ => rfl) (fun _ => rfl) (fun _ => rfl)
      (hp _ (.inr ⟨rfl, by simpa using hwork⟩))

theorem otaStart_evolves (id : Nat) :
    Evolves (Change s (.otaStart id)) Q s.db (s.otaStart id).db := by
  unfold otaStart
  split
  · exact .refl
  rename_i job hjob
  split_ifs with hpending
  · exact .refl
  · obtain ⟨hmem, rfl⟩ := Database.mem_of_getJob hjob
    exact s.confirm_evolves job.id fun _ hst => .confirmed hmem rfl (by simpa using hpending) hst

theorem abortReplied_evolves (job : Job) (failed : Bool) (now : Nat) (hp : P job.id .aborted) :
    Evolves P Q s.db (s.abortReplied c job failed now).db := by
  unfold abortReplied
  refine Evolves.trans ?_ (.markTerminal _ hp)
  exact .touch (fun _ => rfl) (fun _ => rfl) fun _ => rfl

theorem otaAbort_evolves (connected client : Bool) (now : Nat) :
    Evolves (Change s (.otaAbort connected client now)) Q s.db
      (s.otaAbort c connected client now).db := by
  unfold otaAbort
  split
  · exact .refl
  · rename_i job hjob
    split_ifs
    · exact .refl
    · exact s.abortReplied_evolves c job connected now (.abortedNow hjob)

theorem abortReply_evolves (i : Nat) (failed : Bool) (now : Nat) :
    Evolves (Change s (.abortReply i failed now)) Q s.db (s.abortReply c i failed now).db := by
  unfold abortReply
  split
  · exact .refl
  · rename_i job hi
    exact .congr (abortReplied_evolves c _ job failed now (.aborted hi)) rfl

theorem dropJob_evolves (status : Status) (id : Nat) : Evolves P Q s.db (s.dropJob status id).db := by
  unfold dropJob
  split
  · exact .refl
  · split_ifs
    · exact .refl
    · exact (Evolves.abortQueued id).after .refl

theorem otaReflash_evolves (id now : Nat) :
    Evolves P (Birth s (.otaReflash id now)) s.db (s.otaReflash id now).db := by
  unfold otaReflash
  split
  · exact .refl
  split_ifs
  · exact .refl
  split
  · split_ifs
    · exact .refl
    · exact .create now .reflashed
  · exact .refl

theorem deleteRetained_evolves (id : Nat) : Evolves P Q s.db (s.deleteRetained id).db := by
  unfold deleteRetained
  split
  · exact .refl
  · exact .clearFirmware id

theorem otaQueueUp_evolves (id : Nat) : Evolves P Q s.db (s.otaQueueUp id).db := by
  unfold otaQueueUp
  split
  · exact .refl
  split_ifs
  · exact .refl
  split
  · exact (Evolves.reorder id _).after .refl
  · exact .refl

theorem otaQueueDown_evolves (id : Nat) : Evolves P Q s.db (s.otaQueueDown id).db := by
  unfold otaQueueDown
  split
  · exact .refl
  split_ifs
  · exact .refl
  split
  · split_ifs
    · exact .refl
    · exact (Evolves.reorder id _).after .refl
  · exact .refl

/-! ## Compilation -/

theorem compileDeviceConfig_evolves (mac : Mac) (esphomeName : String) (autoFlash : Bool)
    (now : Nat) : Evolves P (Birth s (.compileDeviceConfig mac esphomeName autoFlash now)) s.db
      (s.compileDeviceConfig mac esphomeName autoFlash now).db := by
  unfold compileDeviceConfig
  split_ifs with hactive
  · exact .refl
  · exact .create now (.compile (by simpa using hactive))

theorem compileFail_evolves {id : Nat} (message : String) (hp : P id .failed) :
    Evolves P Q s.db (s.compileFail id message).db := by
  unfold compileFail
  refine Evolves.trans ?_ (.markTerminal _ hp)
  exact .touch (fun _ => rfl) (fun _ => rfl) fun _ => rfl

/-- Only a job that waits to be compiled is taken up. -/
theorem compileDequeueNext_evolves
    (hp : ∀ job ∈ s.db.jobs, job.status = .compileQueued → P job.id .compiling) :
    Evolves P Q s.db (s.compileDequeueNext r).db := by
  unfold compileDequeueNext
  split
  · exact .refl
  split
  · exact .refl
  rename_i next hnext
  split_ifs
  · have hmem : next ∈ s.db.listJobsByStatus .compileQueued :=
      (List.mem_insertionSort _).1 (List.mem_of_mem_head? hnext)
    obtain ⟨hjob, hq⟩ := List.mem_filter.1 hmem
    refine .update (fun job => ?_) (fun job => ?_) fun job => ?_
    · split_ifs <;> rfl
    · split_ifs <;> rfl
    · split_ifs
      · exact .inr (hp next hjob (by simpa using hq))
      · exact .inl rfl
  · exact (Evolves.abortCompileQueued _).after .refl

theorem compiled_evolves {job : Job} {path : Path} (version : String) (now : Nat)
    (hw : s.compiler = .reporting job path) :
    Evolves (Change s (.compiler r)) (Birth s (.compiler r)) s.db
      (s.compiled job path version now).db := by
  unfold compiled
  dsimp only
  split_ifs with hauto
  · have hbirth : Birth s (.compiler r) job.mac .queued := .autoFlash hw hauto
    refine Evolves.trans ?_ (.create now hbirth)
    exact .write (fun _ => rfl) (fun _ => rfl) (fun _ => rfl) (.compiled hw)
  · exact .write (fun _ => rfl) (fun _ => rfl) (fun _ => rfl) (.compiled hw)

/-- The jobs that wait to be compiled after some writes have waited before. -/
theorem began_of_evolves {db : Database} (h : Evolves P Q s.db db)
    (hP : ∀ id status, P id status → status ≠ .compileQueued)
    (hQ : ∀ mac status, Q mac status → status ≠ .compileQueued) :
    ∀ job' ∈ db.jobs, job'.status = .compileQueued →
      ∃ job ∈ s.db.jobs, job.id = job'.id ∧ job.status = .compileQueued := by
  intro job' hjob' hq
  rcases h.origin job' hjob' with ⟨job, hjob, hid, -, hstatus | hp⟩ | ⟨-, hbirth⟩
  · exact ⟨job, hjob, hid, hstatus ▸ hq⟩
  · exact absurd hq (hP _ _ hp)
  · exact absurd hq (hQ _ _ hbirth)

theorem compileStep_evolves (hb : ∀ job ∈ s.db.jobs, job.id < s.db.nextId) :
    Evolves (Change s (.compiler r)) (Birth s (.compiler r)) s.db (s.compileStep r).db := by
  have hbegin {id : Nat} (h : ∃ job ∈ s.db.jobs, job.id = id ∧ job.status = .compileQueued) :
      id < s.db.nextId ∧ Change s (.compiler r) id .compiling := by
    obtain ⟨job, hjob, rfl, hq⟩ := h
    exact ⟨hb job hjob, .began hjob hq⟩
  have hfail (s' : Server) (hdb : s'.db = s.db) {id : Nat} (message : String)
      (hp : Change s (.compiler r) id .failed) :
      Evolves (Change s (.compiler r)) (Birth s (.compiler r)) s.db
        ((s'.compileFail id message).compileDequeueNext r).db := by
    have hwrite : Evolves (fun id' status => id' = id ∧ status = .failed) Nobody s.db
        (s'.compileFail id message).db :=
      hdb ▸ s'.compileFail_evolves message ⟨rfl, rfl⟩
    refine Evolves.trans (hwrite.mono ?_ fun _ _ h => h) (compileDequeueNext_evolves _ r ?_)
    · rintro _ _ ⟨rfl, rfl⟩
      exact hp
    · intro job' hjob' hq
      refine (hbegin (s.began_of_evolves hwrite ?_ ?_ job' hjob' hq)).2
      · rintro _ _ ⟨-, rfl⟩
        simp
      · rintro _ _ ⟨⟩
  unfold compileStep
  split
  · rename_i hw
    split
    · exact .refl
    · rename_i job hjob
      exact s.compileFail_evolves _ (.compileDropped (.inl hw) hjob)
  · rename_i hw
    split
    · exact .refl
    · rename_i job hjob
      split_ifs
      · exact hfail s rfl _ (.compileDropped (.inr hw) hjob)
      · exact .refl
      · exact hfail s rfl _ (.compileDropped (.inr hw) hjob)
  · exact s.compileDequeueNext_evolves r fun job hjob hq => .began hjob hq
  · rename_i job hw
    split
    · rename_i message herror
      exact hfail s rfl message (.compileFailed (.inl hw) (by simp [herror]))
    · exact .refl
  · rename_i job hw
    dsimp only
    split
    · rename_i message herror
      exact hfail ({ s with activeProc := none }) rfl message
        (.compileFailed (.inr hw) (by simp [herror]))
    · exact .refl
  · rename_i job path hw
    have hwrite := s.compiled_evolves r r.version r.now hw
    refine hwrite.then_write (compileDequeueNext_evolves (P := fun id status =>
      status = .compiling ∧ ∃ job ∈ s.db.jobs, job.id = id ∧ job.status = .compileQueued) _ r ?_) ?_
    · intro job' hjob' hq
      refine ⟨rfl, s.began_of_evolves hwrite ?_ ?_ job' hjob' hq⟩
      · intro id status hc
        cases hc with
        | blind h =>
          rw [blindWrites, hw, List.mem_singleton] at h
          simp [(Prod.mk.inj h).2]
        | compileDropped => simp
        | began => simp
        | superseded he => cases he
      · intro mac status hb
        cases hb with
        | autoFlash => simp
        | submitted he => cases he
    · rintro id _ ⟨rfl, h⟩
      exact hbegin h

/-- A compile job that is reported is done afterwards. -/
theorem compileStep_done {job : Job} {path : Path} (hw : s.compiler = .reporting job path) :
    ∀ job' ∈ (s.compileStep r).db.jobs, job'.id = job.id →
      job'.id = s.db.nextId ∨ job'.status = .compileSuccess := by
  have hdone : ∀ job' ∈ (s.compiled job path r.version r.now).db.jobs, job'.id = job.id →
      job'.id = s.db.nextId ∨ job'.status = .compileSuccess := by
    intro job' hjob' hid
    unfold compiled at hjob'
    dsimp only at hjob'
    split_ifs at hjob'
    · rcases List.mem_append.1 hjob' with hmem | hnew
      · refine .inr (Database.status_of_updateJob ?_ job' hmem hid)
        exact fun _ => rfl
      · rw [List.mem_singleton.1 hnew]
        exact .inl rfl
    · refine .inr (Database.status_of_updateJob ?_ job' hjob' hid)
      exact fun _ => rfl
  have hstep : s.compileStep r = (s.compiled job path r.version r.now).compileDequeueNext r := by
    unfold compileStep
    rw [hw]
  intro job' hjob' hid
  rw [hstep] at hjob'
  have hev : Evolves (fun id _ => ∃ next ∈ (s.compiled job path r.version r.now).db.jobs,
      next.id = id ∧ next.status = .compileQueued) Nobody _ _ :=
    compileDequeueNext_evolves _ r fun next hnext hq => ⟨next, hnext, rfl, hq⟩
  rcases hev.origin job' hjob' with ⟨old, hold, hid', -, hst | hnext⟩ | ⟨-, ⟨⟩⟩
  · rw [hst, ← hid']
    exact hdone old hold (hid'.trans hid)
  · obtain ⟨next, hnext, hid', hq⟩ := hnext
    rcases hdone next hnext (hid'.trans hid) with hnew | hsuccess
    · exact .inl (hid' ▸ hnew)
    · rw [hq] at hsuccess
      cases hsuccess

theorem cancelled_evolves {id : Nat} (hp : P id .failed) : Evolves P Q s.db (s.cancelled id).db :=
  s.compileFail_evolves _ hp

theorem compileCancel_evolves (mac : Mac) :
    Evolves (Change s (.compileCancel mac)) Q s.db (s.compileCancel mac).db := by
  unfold compileCancel
  split
  · exact .refl
  rename_i job hjob
  split_ifs with hq hst
  · exact (Evolves.abortCompileQueued _).after .refl
  · exact .refl
  · exact s.cancelled_evolves (.cancelledNow hjob hst)
  · exact .refl

theorem cancelReply_evolves (i : Nat) :
    Evolves (Change s (.cancelReply i)) Q s.db (s.cancelReply i).db := by
  unfold cancelReply
  split
  · exact .refl
  · rename_i id hi
    exact .congr (cancelled_evolves _ (.cancelled hi)) rfl

theorem compileQueueAbort_evolves (id : Nat) : Evolves P Q s.db (s.compileQueueAbort id).db := by
  unfold compileQueueAbort
  split
  · exact .refl
  · split_ifs
    · exact .refl
    · exact (Evolves.abortCompileQueued _).after .refl

theorem compileStartFlash_evolves (mac : Mac) (now : Nat) :
    Evolves (Change s (.compileStartFlash mac now)) (Birth s (.compileStartFlash mac now)) s.db
      (s.compileStartFlash mac now).db := by
  unfold compileStartFlash
  split
  · rename_i hnone
    split
    · exact .refl
    · split_ifs with hgone hwork
      · exact .refl
      · exact .create now (.startFlash hnone (.inl rfl))
      · exact .create now (.startFlash hnone (.inr ⟨rfl, by simpa using hwork⟩))
  · rename_i job hjob
    obtain ⟨-, rfl⟩ := Database.mem_of_flashCandidate hjob
    split_ifs with hpending hq hwait
    · exact s.confirm_evolves job.id fun _ hst => .confirmedFlash hjob hpending hst
    · exact .refl
    · rw [not_or, Bool.not_eq_true] at hwait
      exact .write (fun _ => rfl) (fun _ => rfl) (fun _ => rfl) (.startedQueued hjob hq hwait.1)
    · exact .refl

theorem submitReplied_evolves (esphomeName : String) {configured : Bool} (now : Nat)
    (hp : configured = true → ∀ job, s.db.activeJobForDevice placeholderMac = some job → P job.id .aborted)
    (hq : configured = true → Q placeholderMac .compileQueued) :
    Evolves P Q s.db (s.submitReplied esphomeName configured now).db := by
  unfold submitReplied
  split_ifs with hconfigured
  · dsimp only
    refine Evolves.trans ?_ (.create now (hq hconfigured))
    split
    · exact .refl
    · rename_i active hactive
      split_ifs
      · exact .refl
      · exact .markTerminal _ (hp hconfigured active hactive)
  · exact .refl

theorem flashWizardSubmit_evolves (esphomeName : String) (board configured : Bool) (now : Nat) :
    Evolves (Change s (.flashWizardSubmit esphomeName board configured now))
      (Birth s (.flashWizardSubmit esphomeName board configured now)) s.db
      (s.flashWizardSubmit esphomeName board configured now).db := by
  unfold flashWizardSubmit
  split_ifs with hrefused hproc
  · exact .refl
  · exact .refl
  · rw [not_or, not_not] at hrefused
    have he (hconfigured : configured = true) :
        (s.submission (.flashWizardSubmit esphomeName board configured now)).isSome = true := by
      rw [submission, if_pos ⟨hrefused.1, hrefused.2, hproc, hconfigured⟩]
      rfl
    exact s.submitReplied_evolves esphomeName now (fun h _ hjob => .superseded (he h) hjob) fun h => .submitted (he h)

theorem submitReply_evolves (i : Nat) (configured : Bool) (now : Nat) :
    Evolves (Change s (.submitReply i configured now)) (Birth s (.submitReply i configured now)) s.db
      (s.submitReply i configured now).db := by
  unfold submitReply
  split
  · exact .refl
  · rename_i esphomeName hi
    have he (hconfigured : configured = true) :
        (s.submission (.submitReply i configured now)).isSome = true := by
      rw [submission, if_pos hconfigured, hi]
      rfl
    exact .congr (submitReplied_evolves _ esphomeName now (fun h _ hjob => .superseded (he h) hjob)
      fun h => .submitted (he h)) rfl

/-- What a submission leaves of the job that was active for the placeholder. -/
theorem submission_done {e : Event} {esphomeName : String} {now : Nat}
    (he : s.submission e = some (esphomeName, now)) {active : Job}
    (hactive : s.db.activeJobForDevice placeholderMac = some active) :
    ∀ job ∈ (step c s e).db.jobs, job.id = active.id → job.id = s.db.nextId ∨ job.status = .aborted := by
  have hopen : active.status ∉ [Status.compileSuccess, .failed, .aborted, .rejoinTimeout, .versionMismatch] := by
    have hst := (Database.mem_of_activeJobForDevice hactive).2.2
    intro hmem
    simp only [List.mem_cons, List.not_mem_nil, or_false] at hmem
    rcases hmem with heq | heq | heq | heq | heq <;> simp [heq, Status.isActive] at hst
  have hdone (s' : Server) (hdb : s'.db = s.db) :
      ∀ job ∈ (s'.submitReplied esphomeName true now).db.jobs, job.id = active.id →
        job.id = s.db.nextId ∨ job.status = .aborted := by
    intro job hjob hid
    unfold submitReplied at hjob
    rw [if_neg (not_not.2 rfl), hdb, hactive] at hjob
    dsimp only at hjob
    rw [if_neg hopen] at hjob
    rcases List.mem_append.1 hjob with hold | hnew
    · refine .inr (Database.status_of_updateJob ?_ job hold hid)
      exact fun _ => rfl
    · rw [List.mem_singleton.1 hnew]
      exact .inl rfl
  cases e with
  | flashWizardSubmit esphomeName' board configured now' =>
    simp only [submission] at he
    split_ifs at he with hgoes
    obtain ⟨hname, hboard, hproc, rfl⟩ := hgoes
    obtain ⟨rfl, rfl⟩ := Prod.mk.inj (Option.some.inj he)
    have hstep : step c s (.flashWizardSubmit esphomeName' board true now') =
        s.submitReplied esphomeName' true now' := by
      rw [step, flashWizardSubmit, if_neg (not_or.2 ⟨hname, not_not.2 hboard⟩), if_neg hproc]
    rw [hstep]
    exact hdone s rfl
  | submitReply i configured now' =>
    simp only [submission] at he
    split_ifs at he with hconfigured
    obtain ⟨name, hi, hpair⟩ := Option.map_eq_some_iff.1 he
    obtain ⟨rfl, rfl⟩ := Prod.mk.inj hpair
    have hstep : step c s (.submitReply i configured now') =
        ({ s with submits := s.submits.eraseIdx i } : Server).submitReplied name true now' := by
      rw [step, submitReply, hi, hconfigured]
    rw [hstep]
    exact hdone _ rfl
  | _ => cases he

end Server

/-- An event writes no other statuses and creates no other jobs than those on the lists. -/
theorem step_evolves (c : Settings) (s : Server) (hb : ∀ job ∈ s.db.jobs, job.id < s.db.nextId)
    (e : Event) : Evolves (Change s e) (Birth s e) s.db (step c s e).db := by
  cases e with
  | worker r => exact s.workerStep_evolves c r
  | chunkRequest now => exact s.chunkRequest_evolves c now
  | chunkReply i failed now => exact s.chunkReply_evolves c i failed now
  | onStatus state errorDetail now => exact s.onStatus_evolves c state errorDetail now
  | onAborted reason now => exact s.onAborted_evolves c reason now
  | otaUpload mac => exact s.otaUpload_evolves mac
  | uploadReply i found valid version now => exact s.uploadReply_evolves i found valid version now
  | otaStart id => exact s.otaStart_evolves id
  | otaAbort connected client now => exact s.otaAbort_evolves c connected client now
  | abortReply i failed now => exact s.abortReply_evolves c i failed now
  | otaCancelPending id => exact s.dropJob_evolves .pendingConfirm id
  | otaQueueAbort id => exact s.dropJob_evolves .queued id
  | otaReflash id now => exact s.otaReflash_evolves id now
  | deleteRetained id => exact s.deleteRetained_evolves id
  | otaQueueUp id => exact s.otaQueueUp_evolves id
  | otaQueueDown id => exact s.otaQueueDown_evolves id
  | otaQueuePause => exact .refl
  | otaQueueResume => exact .refl
  | compileDeviceConfig mac esphomeName autoFlash now =>
    exact s.compileDeviceConfig_evolves mac esphomeName autoFlash now
  | compiler r => exact s.compileStep_evolves r hb
  | compileCancel mac => exact s.compileCancel_evolves mac
  | cancelReply i => exact s.cancelReply_evolves i
  | compileQueueAbort id => exact s.compileQueueAbort_evolves id
  | compileStartFlash mac now => exact s.compileStartFlash_evolves mac now
  | flashWizardSubmit esphomeName board configured now =>
    exact s.flashWizardSubmit_evolves esphomeName board configured now
  | submitReply i configured now => exact s.submitReply_evolves i configured now
  | restart => exact .refl

theorem reachable_runFrom {c : Settings} {ok : Server → Event → Prop} {es : List Event}
    (h : Transition.Admits ok (step c) {} es) :
    Transition.Reachable Fresh ok (step c) (Transition.runFrom (step c) {} es) :=
  have hfresh : Fresh {} := rfl
  (Transition.Reachable.start hfresh).runFrom h

/-- The rows of the table have different ids, all of them given out before. -/
structure Keyed (db : Database) : Prop where
  unique : (db.jobs.map (·.id)).Nodup
  bounded : ∀ job ∈ db.jobs, job.id < db.nextId

theorem Keyed.evolves {P : Nat → Status → Prop} {Q : Mac → Status → Prop} {db db' : Database}
    (h : Keyed db) (hev : Evolves P Q db db') : Keyed db' :=
  ⟨hev.unique h.unique h.bounded, hev.bounded h.bounded⟩

theorem Keyed.step {s : Server} (h : Keyed s.db) (c : Settings) (e : Event) :
    Keyed (step c s e).db :=
  h.evolves (step_evolves c s h.bounded e)

theorem Keyed.fresh {s : Server} (h : Fresh s) : Keyed s.db := by
  rw [h]
  exact ⟨List.nodup_nil, by simp⟩

theorem Keyed.eq_of_id {db : Database} (h : Keyed db) {a b : Job} (ha : a ∈ db.jobs)
    (hb : b ∈ db.jobs) (hid : a.id = b.id) : a = b :=
  List.inj_on_of_nodup_map h.unique ha hb hid

end EspTree.AddOn
