import EspTree.AddOn.Database

/-!
# The add-on: workers, callbacks and endpoints

`app/ota_worker.py`, `app/compile_worker.py` and the OTA and compile endpoints of `app/server.py`.
They share one event loop, so a coroutine runs alone from one `await` to the next.  `Worker`,
`Compiler` and the lists of suspended calls say where each coroutine waits, with the local variables
that it uses afterwards; an event lets one of them go on, or lets a request come in.  What an
`await` gives, the clock and the outcome of the compiler are inputs of the event.

`Worker.top` and `Compiler.top` are the heads of the two loops.  The source goes on from there at
once; the model may take other steps first.
-/

namespace EspTree.AddOn

open Wire

/-- The settings that the workers use. -/
structure Settings where
  rejoinTimeoutS : Nat := 300
  transferTimeoutS : Nat := 1800
  retentionDays : Nat := 7

/-- A device in the topology. -/
structure Node where
  online : Bool
  uptimeS : Option Nat := none
  firmwareVersion : String := ""

/-- What a look for the device in `bridge_manager.topology()` gives. -/
inductive Topology
  | unreachable
  | unknown
  | found (node : Node)

/-- `uptime_s` of a device that is found. -/
def Topology.uptime : Topology → Option Nat
  | .found node => node.uptimeS
  | _ => none

/-- `pb.OtaState`, where `other` stands for the states that no branch names. -/
inductive OtaState
  | announcing | transferring | verifying | success | failed | aborted | other
  deriving DecidableEq, Repr

/-- What a coroutine finds when it goes on. -/
structure Reply where
  now : Nat := 0
  managed : Bool := true
  connected : Bool := true
  client : Bool := true
  topology : Topology := .unreachable
  error : Option String := none
  timedOut : Bool := false
  configured : Bool := true
  version : String := ""

/-- Where the OTA worker waits. -/
inductive Worker
  | boot
  | top
  | idle
  | dequeuing (job : Job)
  | connecting (job : Job) (waited : Nat)
  | preparing (job : Job)
  | starting (job : Job) (uptime : Option Nat)
  | flushSending (job : Job) (uptime : Option Nat) (left : Nat)
  | flushAborting (job : Job) (uptime : Option Nat) (left : Nat)
  | transferring (job : Job) (uptime : Option Nat) (latest : Status)
  | aborting (job : Job) (message : String)
  | rejoinUptime (job : Job) (deadline : Nat)
  | rejoining (job : Job) (uptime : Option Nat) (deadline : Nat)
  | rejoinSleeping (job : Job) (uptime : Option Nat) (deadline : Nat)
  deriving DecidableEq

/-- The variables that `_process_v2` shares with its callbacks, while these are set. -/
structure Flash where
  run : Nat
  job : Nat
  transferStarted : Nat
  lastEventAt : Nat
  ready : Bool := false
  buffered : Nat := 0
  terminalEvent : Bool := false
  rejoin : Bool := false
  deriving DecidableEq

/-- An `on_chunk_request` that waits for `send_chunks`, or for the abort after a timeout. -/
structure Callback where
  run : Nat
  job : Nat
  sending : Bool
  deriving DecidableEq

/-- Where the compile worker waits. -/
inductive Compiler
  | boot
  | top
  | idle
  | installing (job : Job)
  | running (job : Job)
  | reporting (job : Job) (path : Path)
  deriving DecidableEq

/-- The state of the add-on. -/
structure Server where
  db : Database := {}
  store : FirmwareStore := {}
  paused : Bool := false
  retryCounts : Nat → Nat := fun _ => 0
  dequeueFailureCounts : Nat → Nat := fun _ => 0
  worker : Worker := .boot
  runs : Nat := 0
  flash : Option Flash := none
  callbacks : List Callback := []
  aborts : List Job := []
  uploading : List (Mac × Bool) := []
  compiler : Compiler := .boot
  activeProc : Option String := none
  cancels : List Nat := []
  /-- The names for which a `flash_wizard_submit` waits for the compiler that it has stopped. -/
  submits : List String := []

/-- The value of the counter at the id. -/
def setCount (counts : Nat → Nat) (id n : Nat) : Nat → Nat := fun i => if i = id then n else counts i

/-- The tags of a message that rule out another try. -/
def permanentTags : List String := ["remote_not_found", "ota_busy", "rejected", "md5", "size"]

/-- `any(tag in msg.lower() for tag in permanent_tags)`. -/
def isPermanent (message : String) : Bool :=
  permanentTags.any fun tag => decide (1 < (message.toLower.splitOn tag).length)

namespace Server

variable (c : Settings) (s : Server) (r : Reply)

/-! ## The OTA worker -/

def finish (id : Nat) (status : Status) (errorMsg : Option String) (now : Nat) : Server :=
  match s.db.getJob id with
  | none => s
  | some job =>
    let (store, path, retainedUntil) :=
      s.store.retain job.firmwarePath id (now + c.retentionDays * 86400)
    let db := s.db.updateJob id fun job => { job with firmwarePath := path, retainedUntil }
    { s with store, db := db.markTerminal id status errorMsg }

def fail (id : Nat) (message : String) (now : Nat) : Server := s.finish c id .failed (some message) now

def cleanupExpiredFiles (now : Nat) : Server :=
  (s.db.expiredRetained now).foldl (fun s job =>
    { s with store := s.store.deleteFile job.firmwarePath, db := s.db.clearJobFirmware job.id }) s

def recoverStartup (now : Nat) : Server :=
  let s := match s.db.activeJob with
    | none => s
    | some job => s.fail c job.id "add-on restarted, active OTA job could not be recovered" now
  let s := (s.db.listJobsByStatus .pendingConfirm).foldl (fun s job =>
    { s with store := s.store.deleteFile job.firmwarePath, db := s.db.abortQueuedJob job.id }) s
  { s with paused := s.paused || !s.db.queuedJobs.isEmpty, worker := .top }

def handleDequeueFailure (job : Job) (reason : String) : Server :=
  let count := s.dequeueFailureCounts job.id + 1
  let put (n : Nat) := setCount s.dequeueFailureCounts job.id n
  if count < 3 then
    { s with
      dequeueFailureCounts := put count
      db := s.db.updateJob job.id fun job => { job with
        errorMsg := some (reason ++ " (attempt " ++ toString count ++ "/3, will retry)") } }
  else if s.db.queuedJobs.length ≤ 1 then
    { s with
      dequeueFailureCounts := put 3
      db := s.db.updateJob job.id fun job => { job with
        errorMsg := some (reason ++ " (retried 3x, waiting for device to come online)") } }
  else
    { s with
      dequeueFailureCounts := put 0
      db := s.db.updateJob job.id fun job => { job with
        queueOrder := some (s.db.queuedJobs.length - 1)
        errorMsg := some (reason ++ " (retried 3x, moved to back of queue)") } }

/-- `_dequeue_next`, up to its `await`. -/
def dequeueNext : Server :=
  match s.db.nextQueuedJob with
  | none => { s with worker := .top }
  | some job =>
    if ¬ r.managed then { s.handleDequeueFailure job "bridge manager not available" with worker := .top }
    else { s with worker := .dequeuing job }

/-- `_dequeue_next`, with the topology. -/
def dequeued (job : Job) : Server :=
  match r.topology with
  | .unreachable =>
    { s.handleDequeueFailure job "bridge unreachable when starting queued job" with worker := .top }
  | .unknown =>
    { s.handleDequeueFailure job "device offline when starting queued job" with worker := .top }
  | .found node =>
    if ¬ node.online then
      { s.handleDequeueFailure job "device offline when starting queued job" with worker := .top }
    else
      { s with
        dequeueFailureCounts := setCount s.dequeueFailureCounts job.id 0
        db := s.db.updateJob job.id fun job => { job with status := .starting, errorMsg := none }
        worker := .top }

/-- The end of a turn of the worker's loop. -/
def endTurn : Server := if s.paused then { s with worker := .top } else s.dequeueNext r

/-- `ota_client.close()`, and the end of the turn. -/
def close : Server := ({ s with flash := none } : Server).endTurn r

/-- A turn of the loop of `_wait_for_rejoin`. -/
def rejoinLoop (job : Job) (uptime : Option Nat) (deadline : Nat) : Server :=
  if deadline < r.now then
    (s.finish c job.id .rejoinTimeout
      (some "bridge transfer succeeded but the device did not rejoin before timeout") r.now).close r
  else
    match s.db.getJob job.id with
    | none => s.close r
    | some latest =>
      if latest.status.isTerminal then s.close r
      else { s with worker := .rejoining job uptime deadline }

def waitForRejoin (job : Job) (uptime : Option Nat) : Server :=
  let deadline := r.now + c.rejoinTimeoutS
  if uptime = none then { s with worker := .rejoinUptime job deadline }
  else s.rejoinLoop c r job uptime deadline

/-- The device is back. -/
def rejoined (job : Job) (node : Node) : Server :=
  let expected := ((s.db.getJob job.id).getD job).parsedVersion
  if expected ≠ "" ∧ node.firmwareVersion ≠ "" ∧ node.firmwareVersion ≠ expected then
    (s.finish c job.id .versionMismatch
      (some "firmware version mismatch after rejoin — device may not have updated") r.now).close r
  else (s.finish c job.id .success none r.now).close r

/-- A turn of the transfer loop of `_process_v2`. -/
def transferLoop (job : Job) (uptime : Option Nat) : Server :=
  match s.db.getJob job.id with
  | none => s.close r
  | some latest =>
    if latest.status.isTerminal then s.close r
    else if s.flash.any fun f => decide (c.transferTimeoutS < r.now - f.transferStarted) then
      { s with worker := .aborting job "OTA transfer timed out" }
    else { s with worker := .transferring job uptime latest.status }

/-- The status of the job, written without a look at it. -/
def setStatus (id : Nat) (status : Status) : Server :=
  { s with db := s.db.updateJob id fun job => { job with status } }

/-- `ota_client.start` has raised. -/
def startFailed (job : Job) (message : String) : Server :=
  if s.retryCounts job.id < 1 ∧ ¬ isPermanent message then
    ({ s with
      retryCounts := setCount s.retryCounts job.id (s.retryCounts job.id + 1)
      db := s.db.updateJob job.id fun job => { job with
        status := .queued
        queueOrder := some s.db.queuedJobs.length
        errorMsg := some ("ota.start retry: " ++ message) } } :
      Server).close r
  else
    (({ s with retryCounts := setCount s.retryCounts job.id 0 } : Server).fail c job.id
      ("ota.start failed: " ++ message) r.now).close r

/-- What `on_chunk_request` does first. -/
inductive ChunkStep
  | returned | aborting | sending

/-- `on_chunk_request`, up to its `await`. -/
def onChunkRequest (f : Flash) (now : Nat) : ChunkStep :=
  match s.db.getJob f.job with
  | none => .returned
  | some latest =>
    if latest.status.isTerminal then .returned
    else if c.transferTimeoutS < now - f.transferStarted then .aborting
    else .sending

/-- The `n` requests that came before the acceptance, and then the rest of `_process_v2`. -/
def flush (job : Job) (uptime : Option Nat) (n : Nat) (s : Server) : Server :=
  match n, s.flash with
  | n + 1, some f =>
    let s := { s with flash := some { f with lastEventAt := r.now } }
    match s.onChunkRequest c f r.now with
    | .returned => flush job uptime n s
    | .aborting => { s with worker := .flushAborting job uptime n }
    | .sending => { s with worker := .flushSending job uptime n }
  | _, _ => (s.setStatus job.id .transferring).transferLoop c r job uptime

/-- The terminal event of one run of `_process_v2`. -/
def setTerminal (run : Nat) : Server :=
  { s with flash := s.flash.map fun f => if f.run = run then { f with terminalEvent := true } else f }

/-- `_process_v2`, once the bridge is connected. -/
def processConnected (job : Job) : Server :=
  if ¬ r.client then
    (s.fail c job.id ("bridge for OTA target is not connected: " ++ r.error.getD "") r.now).endTurn r
  else
    let s := { s with
      runs := s.runs + 1
      flash := some
        { run := s.runs, job := job.id, transferStarted := r.now, lastEventAt := r.now } }
    if job.status = .starting then
      { s with
        db := s.db.updateJob job.id fun job => { job with errorMsg := none }
        worker := .preparing job }
    else s.transferLoop c r job none

def process (job : Job) : Server :=
  match s.db.getJob job.id with
  | none => s.endTurn r
  | some current =>
    if current.status.isTerminal then s.endTurn r
    else if current.status = .waitingRejoin then s.waitForRejoin c r current none
    -- `Path("")` is the working directory, which exists
    else if current.firmwarePath.any (· ∉ s.store.files) then
      (s.fail c current.id "firmware file is missing" r.now).endTurn r
    else if ¬ r.managed then (s.fail c current.id "bridge manager not available" r.now).endTurn r
    else if ¬ r.connected then { s with worker := .connecting current 0 }
    else s.processConnected c r current

/-- The OTA worker goes on. -/
def workerStep : Server :=
  match s.worker with
  | .boot => s.recoverStartup c r.now
  | .top =>
    match s.db.activeJob with
    | some job => s.process c r job
    | none => { s with worker := .idle }
  | .idle => (if r.timedOut then s.cleanupExpiredFiles r.now else s).endTurn r
  | .dequeuing job => s.dequeued r job
  | .connecting job waited =>
    if r.connected then s.processConnected c r job
    else if waited + 1 < 15 then { s with worker := .connecting job (waited + 1) }
    else (s.fail c job.id "bridge protobuf WebSocket not connected" r.now).endTurn r
  | .preparing job =>
    -- `Path(None)` raises
    if job.firmwarePath = none then s.startFailed c r job "expected str, bytes or os.PathLike object"
    else { s with worker := .starting job r.topology.uptime }
  | .starting job uptime =>
    match r.error with
    | some message => s.startFailed c r job message
    | none =>
      let n := (s.flash.map (·.buffered)).getD 0
      let flash := s.flash.map fun f => { f with ready := true, buffered := 0 }
      flush c r job uptime n { s with flash }
  | .flushSending job uptime left =>
    match r.error with
    | some message => s.startFailed c r job message
    | none => flush c r job uptime left (s.setStatus job.id .transferring)
  | .flushAborting job uptime left =>
    let s := s.fail c job.id "OTA transfer timed out" r.now
    flush c r job uptime left ((s.flash.map (·.run)).elim s s.setTerminal)
  | .transferring job uptime latest =>
    match s.flash with
    | none => s.close r
    | some f =>
      if f.terminalEvent then
        if f.rejoin then s.waitForRejoin c r ((s.db.getJob job.id).getD job) uptime
        else s.close r
      else if 60 < r.now - f.lastEventAt ∧ (latest = .transferring ∨ latest = .verifying) then
        { s with worker := .aborting job "OTA transfer stalled" }
      else s.transferLoop c r job uptime
  | .aborting job message => (s.fail c job.id message r.now).close r
  | .rejoinUptime job deadline => s.rejoinLoop c r job r.topology.uptime deadline
  | .rejoining job uptime deadline =>
    match r.topology with
    | .found node =>
      if node.online ∧ uptime.all (fun before => decide (node.uptimeS.getD 0 < before)) then
        s.rejoined c r job node
      else { s with worker := .rejoinSleeping job uptime deadline }
    | _ => { s with worker := .rejoinSleeping job uptime deadline }
  | .rejoinSleeping job uptime deadline => s.rejoinLoop c r job uptime deadline

/-! ## The callbacks -/

/-- A chunk request of the bridge. -/
def chunkRequest (now : Nat) : Server :=
  match s.flash with
  | none => s
  | some f =>
    if ¬ f.ready then { s with flash := some { f with buffered := f.buffered + 1 } }
    else
      let s := { s with flash := some { f with lastEventAt := now } }
      match s.onChunkRequest c f now with
      | .returned => s
      | .aborting => { s with callbacks := s.callbacks ++ [⟨f.run, f.job, false⟩] }
      | .sending => { s with callbacks := s.callbacks ++ [⟨f.run, f.job, true⟩] }

/-- A suspended chunk request goes on. -/
def chunkReply (i : Nat) (failed : Bool) (now : Nat) : Server :=
  match s.callbacks[i]? with
  | none => s
  | some callback =>
    let s := { s with callbacks := s.callbacks.eraseIdx i }
    if ¬ callback.sending then
      (s.fail c callback.job "OTA transfer timed out" now).setTerminal callback.run
    else if failed then s
    else s.setStatus callback.job .transferring

def onStatus (state : OtaState) (errorDetail : String) (now : Nat) : Server :=
  match s.flash with
  | none => s
  | some f =>
    let s := { s with flash := some { f with lastEventAt := now } }
    let report (status : Status → Status) : Server :=
      { s with db := s.db.updateJob f.job fun job => { job with
        status := status job.status
        errorMsg := if errorDetail = "" then job.errorMsg else some errorDetail } }
    match state with
    | .announcing => report fun _ => .announcing
    | .transferring => report fun _ => .transferring
    | .verifying => report fun _ => .verifying
    | .success =>
      let s := report fun _ => .waitingRejoin
      { s with flash := some { f with lastEventAt := now, rejoin := true, terminalEvent := true } }
    | .failed | .aborted =>
      (s.fail c f.job (if errorDetail = "" then "bridge OTA failed" else errorDetail) now).setTerminal
        f.run
    | .other => report fun status => status

def onAborted (reason : String) (now : Nat) : Server :=
  match s.flash with
  | none => s
  | some f =>
    (s.fail c f.job ("OTA aborted: " ++ if reason = "" then "bridge" else reason) now).setTerminal
      f.run

/-! ## The OTA endpoints -/

/-- `ota_upload`, up to its first `await`. -/
def otaUpload (mac : Mac) : Server :=
  if (s.db.activeJobForDevice mac).isSome then s
  else
    let s := match s.db.getJobByMacAndStatus mac .pendingConfirm with
      | none => s
      | some pending =>
        { s with
          db := s.db.abortQueuedJob pending.id
          store := s.store.deleteFile pending.firmwarePath }
    { s with uploading := s.uploading ++ [(mac, false)] }

/-- An upload goes on: first with the topology, then with the file. -/
def uploadReply (i : Nat) (found valid : Bool) (version : String) (now : Nat) : Server :=
  match s.uploading[i]? with
  | none => s
  | some (mac, saving) =>
    if ¬ saving then
      { s with uploading :=
          if found then s.uploading.set i (mac, true) else s.uploading.eraseIdx i }
    else
      let s := { s with uploading := s.uploading.eraseIdx i }
      if ¬ valid then s
      else
        let (store, path) := s.store.create
        let values : Job :=
          { id := 0, mac, status := .pendingConfirm, firmwarePath := some path, parsedVersion := version }
        { s with store, db := (s.db.createJob values now).1 }

/-- A job that awaits confirmation is queued behind other work, or starts at once. -/
def confirm (id : Nat) : Server :=
  if s.db.flashWorkPending (some id) then
    { s with db := s.db.updateJob id fun job => { job with
        status := .queued, queueOrder := some s.db.queuedJobs.length } }
  else
    { s with db := s.db.updateJob id fun job => { job with status := .starting, errorMsg := none } }

def otaStart (id : Nat) : Server :=
  match s.db.getJob id with
  | none => s
  | some job => if job.status ≠ .pendingConfirm then s else s.confirm id

/-- `ota_abort`, after its `await`. -/
def abortReplied (job : Job) (failed : Bool) (now : Nat) : Server :=
  let (store, path, retainedUntil) :=
    s.store.retain job.firmwarePath job.id (now + c.retentionDays * 86400)
  let db := s.db.updateJob job.id fun job => { job with firmwarePath := path, retainedUntil }
  let warning := if failed then
    " (warning: bridge abort request failed, bridge may still have an active session)" else ""
  { s with store, db := db.markTerminal job.id .aborted (some ("aborted by user" ++ warning)) }

/-- `ota_abort`; without a connection or a client for the device there is nothing to wait for. -/
def otaAbort (connected client : Bool) (now : Nat) : Server :=
  match s.db.activeJob with
  | none => s
  | some job =>
    if connected ∧ client then { s with aborts := s.aborts ++ [job] }
    else s.abortReplied c job connected now

/-- A suspended `ota_abort` goes on. -/
def abortReply (i : Nat) (failed : Bool) (now : Nat) : Server :=
  match s.aborts[i]? with
  | none => s
  | some job => ({ s with aborts := s.aborts.eraseIdx i } : Server).abortReplied c job failed now

/-- `ota_cancel_pending`, and `ota_queue_abort` for a job with the status `queued`. -/
def dropJob (status : Status) (id : Nat) : Server :=
  match s.db.getJob id with
  | none => s
  | some job =>
    if job.status ≠ status then s
    else { s with store := s.store.deleteFile job.firmwarePath, db := s.db.abortQueuedJob id }

def otaReflash (id : Nat) (now : Nat) : Server :=
  match s.db.getJob id with
  | none => s
  | some source =>
    if (s.db.activeJobForDevice source.mac).isSome then s
    else
      match source.firmwarePath, source.retainedUntil with
      | some path, some until_ =>
        if until_ ≤ now ∨ path ∉ s.store.files then s
        else
          let (store, path) := s.store.create
          let values : Job :=
            { id := 0, mac := source.mac, status := .pendingConfirm, firmwarePath := some path
              parsedVersion := source.parsedVersion }
          { s with store, db := (s.db.createJob values now).1 }
      | _, _ => s

def deleteRetained (id : Nat) : Server :=
  match s.db.getJob id with
  | none => s
  | some job =>
    { s with store := s.store.deleteFile job.firmwarePath, db := s.db.clearJobFirmware id }

def otaQueueUp (id : Nat) : Server :=
  match s.db.getJob id with
  | none => s
  | some job =>
    if job.status ≠ .queued then s
    else match job.queueOrder with
      | some (order + 1) => { s with db := s.db.reorderQueue id order }
      | _ => s

def otaQueueDown (id : Nat) : Server :=
  match s.db.getJob id with
  | none => s
  | some job =>
    if job.status ≠ .queued then s
    else match job.queueOrder with
      | some order =>
        if s.db.queuedJobs.length ≤ order + 1 then s
        else { s with db := s.db.reorderQueue id (order + 1) }
      | none => s

/-! ## Compilation -/

/-- `compile_device_config`, for a device that has a configuration. -/
def compileDeviceConfig (mac : Mac) (esphomeName : String) (autoFlash : Bool) (now : Nat) : Server :=
  if (s.db.activeJobForDevice mac).isSome then s
  else
    { s with db := (s.db.createJob
        { id := 0, mac, status := .compileQueued, esphomeName, autoFlash } now).1 }

/-- `_fail` of the compile worker; `compileFailed` says that the event log tells of it. -/
def compileFail (id : Nat) (message : String) : Server :=
  let db := s.db.updateJob id fun job => { job with compileFailed := true }
  { s with db := db.markTerminal id .failed (some message) }

/-- `_dequeue_next` of the compile worker.  A job without a configuration is dropped; the source then
looks at the next one at once, the model when the worker goes on from `idle`. -/
def compileDequeueNext : Server :=
  if s.db.activeCompileJob.isSome then { s with compiler := .top }
  else
    match s.db.nextCompileQueuedJob with
    | none => { s with compiler := .top }
    | some job =>
      if ¬ r.configured then { s with db := s.db.abortCompileQueuedJob job.id, compiler := .idle }
      else
        { s with
          -- `transition_compile_queued_to_compiling`
          db := s.db.updateJob job.id fun job =>
            if job.status = .compileQueued then { job with status := .compiling } else job
          compiler := .top }

/-- The end of `_process` of a compile job that has a binary: the job is done, and with `auto_flash`
another job is queued for the same file. -/
def compiled (job : Job) (path : Path) (version : String) (now : Nat) : Server :=
  let db := s.db.updateJob job.id fun job => { job with
    status := .compileSuccess
    queueOrder := some s.db.queuedJobs.length
    firmwarePath := some path
    parsedVersion := version }
  if job.autoFlash then
    { s with db := (db.createJob
        { id := 0, mac := job.mac, status := .queued, firmwarePath := some path,
          parsedVersion := version, esphomeName := job.esphomeName } now).1 }
  else { s with db }

/-- The compile worker goes on; an error is a compiler that has failed. -/
def compileStep : Server :=
  match s.compiler with
  | .boot =>
    match s.db.activeCompileJob with
    | none => { s with compiler := .top }
    | some job =>
      { s.compileFail job.id "add-on restarted, compile could not be recovered" with compiler := .top }
  | .top =>
    match s.db.activeCompileJob with
    | none => { s with compiler := .idle }
    | some job =>
      if job.esphomeName = "" then
        (s.compileFail job.id "no esphome_name found for compile job").compileDequeueNext r
      else if ¬ r.configured then
        (s.compileFail job.id ("no config found for '" ++ job.esphomeName ++ "'")).compileDequeueNext r
      else { s with compiler := .installing job }
  | .idle => s.compileDequeueNext r
  | .installing job =>
    match r.error with
    | some message => (s.compileFail job.id message).compileDequeueNext r
    | none => { s with activeProc := some job.esphomeName, compiler := .running job }
  | .running job =>
    let s := { s with activeProc := none }
    match r.error with
    | some message => (s.compileFail job.id message).compileDequeueNext r
    | none =>
      let (store, path) := s.store.create
      { s with store, compiler := .reporting job path }
  | .reporting job path => (s.compiled job path r.version r.now).compileDequeueNext r

/-- `cancel`, after its `await`. -/
def cancelled (id : Nat) : Server := s.compileFail id "cancelled by user"

/-- `compile_cancel`; without a process there is nothing to wait for. -/
def compileCancel (mac : Mac) : Server :=
  match s.db.activeJobForDevice mac with
  | none => s
  | some job =>
    if job.status = .compileQueued then { s with db := s.db.abortCompileQueuedJob job.id }
    else if job.status = .compiling then
      if job.esphomeName ≠ "" ∧ s.activeProc = some job.esphomeName then
        { s with cancels := s.cancels ++ [job.id] }
      else s.cancelled job.id
    else s

/-- A suspended `cancel` goes on. -/
def cancelReply (i : Nat) : Server :=
  match s.cancels[i]? with
  | none => s
  | some id => ({ s with cancels := s.cancels.eraseIdx i } : Server).cancelled id

def compileQueueAbort (id : Nat) : Server :=
  match s.db.getJob id with
  | none => s
  | some job =>
    if job.status ≠ .compileQueued then s
    else { s with db := s.db.abortCompileQueuedJob id }

def compileStartFlash (mac : Mac) (now : Nat) : Server :=
  match (s.db.activeJobForDevice mac).or (s.db.getJobByMacAndStatus mac .pendingConfirm) with
  | none =>
    match s.db.getLatestCompileJobForDevice mac with
    | none => s
    | some compileJob =>
      if compileJob.status ≠ .compileSuccess ∨ ¬ compileJob.firmwarePath.any (· ∈ s.store.files) then s
      else
        { s with db := (s.db.createJob
            { id := 0, mac, status := if s.db.flashWorkPending none then .queued else .starting
              firmwarePath := compileJob.firmwarePath, parsedVersion := compileJob.parsedVersion
              esphomeName := compileJob.esphomeName } now).1 }
  | some job =>
    if job.status = .pendingConfirm then s.confirm job.id
    else if job.status = .queued then
      if s.db.activeJob.any (·.id != job.id) ∨ 0 < s.db.countQueuedBefore job.id then s
      else
        { s with db := s.db.updateJob job.id fun job =>
            { job with status := .starting, errorMsg := none } }
    else s

/-- `PLACEHOLDER_MAC`, the device of the flash wizard. -/
def placeholderMac : Mac := ⟨[0xFF, 0xFF, 0xFF, 0xFF, 0xFF, 0xFF], rfl⟩

/-- `flash_wizard_submit`, after its `await`: what is done for the placeholder gives way to a compilation. -/
def submitReplied (esphomeName : String) (configured : Bool) (now : Nat) : Server :=
  if ¬ configured then s
  else
    let db := match s.db.activeJobForDevice placeholderMac with
      | none => s.db
      | some active =>
        if active.status ∈ [Status.compileSuccess, .failed, .aborted, .rejoinTimeout, .versionMismatch] then s.db
        else s.db.markTerminal active.id .aborted (some "superseded by flash wizard re-submit")
    { s with db := (db.createJob
        { id := 0, mac := placeholderMac, status := .compileQueued, esphomeName } now).1 }

/-- `flash_wizard_submit`; without a process for the name there is nothing to wait for. -/
def flashWizardSubmit (esphomeName : String) (board configured : Bool) (now : Nat) : Server :=
  if esphomeName = "" ∨ ¬ board then s
  else if s.activeProc = some esphomeName then { s with submits := s.submits ++ [esphomeName] }
  else s.submitReplied esphomeName configured now

/-- A suspended `flash_wizard_submit` goes on. -/
def submitReply (i : Nat) (configured : Bool) (now : Nat) : Server :=
  match s.submits[i]? with
  | none => s
  | some esphomeName =>
    ({ s with submits := s.submits.eraseIdx i } : Server).submitReplied esphomeName configured now

/-- The add-on is started again: the coroutines are gone. -/
def restart : Server := { db := s.db, store := s.store, runs := s.runs }

end Server

/-! ## Runs -/

/-- What happens to the add-on. -/
inductive Event
  | worker (r : Reply)
  | chunkRequest (now : Nat)
  | chunkReply (i : Nat) (failed : Bool) (now : Nat)
  | onStatus (state : OtaState) (errorDetail : String) (now : Nat)
  | onAborted (reason : String) (now : Nat)
  | otaUpload (mac : Mac)
  | uploadReply (i : Nat) (found valid : Bool) (version : String) (now : Nat)
  | otaStart (id : Nat)
  | otaAbort (connected client : Bool) (now : Nat)
  | abortReply (i : Nat) (failed : Bool) (now : Nat)
  | otaCancelPending (id : Nat)
  | otaQueueAbort (id : Nat)
  | otaReflash (id now : Nat)
  | deleteRetained (id : Nat)
  | otaQueueUp (id : Nat)
  | otaQueueDown (id : Nat)
  | otaQueuePause
  | otaQueueResume
  | compileDeviceConfig (mac : Mac) (esphomeName : String) (autoFlash : Bool) (now : Nat)
  | compiler (r : Reply)
  | compileCancel (mac : Mac)
  | cancelReply (i : Nat)
  | compileQueueAbort (id : Nat)
  | compileStartFlash (mac : Mac) (now : Nat)
  | flashWizardSubmit (esphomeName : String) (board configured : Bool) (now : Nat)
  | submitReply (i : Nat) (configured : Bool) (now : Nat)
  | restart

/-- One event. -/
def step (c : Settings) (s : Server) : Event → Server
  | .worker r => s.workerStep c r
  | .chunkRequest now => s.chunkRequest c now
  | .chunkReply i failed now => s.chunkReply c i failed now
  | .onStatus state errorDetail now => s.onStatus c state errorDetail now
  | .onAborted reason now => s.onAborted c reason now
  | .otaUpload mac => s.otaUpload mac
  | .uploadReply i found valid version now => s.uploadReply i found valid version now
  | .otaStart id => s.otaStart id
  | .otaAbort connected client now => s.otaAbort c connected client now
  | .abortReply i failed now => s.abortReply c i failed now
  | .otaCancelPending id => s.dropJob .pendingConfirm id
  | .otaQueueAbort id => s.dropJob .queued id
  | .otaReflash id now => s.otaReflash id now
  | .deleteRetained id => s.deleteRetained id
  | .otaQueueUp id => s.otaQueueUp id
  | .otaQueueDown id => s.otaQueueDown id
  | .otaQueuePause => { s with paused := true }
  | .otaQueueResume => { s with paused := false }
  | .compileDeviceConfig mac esphomeName autoFlash now =>
    s.compileDeviceConfig mac esphomeName autoFlash now
  | .compiler r => s.compileStep r
  | .compileCancel mac => s.compileCancel mac
  | .cancelReply i => s.cancelReply i
  | .compileQueueAbort id => s.compileQueueAbort id
  | .compileStartFlash mac now => s.compileStartFlash mac now
  | .flashWizardSubmit esphomeName board configured now =>
    s.flashWizardSubmit esphomeName board configured now
  | .submitReply i configured now => s.submitReply i configured now
  | .restart => s.restart

/-- The add-on before its first start. -/
def Fresh (s : Server) : Prop := s = {}

end EspTree.AddOn
