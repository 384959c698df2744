import EspTree.Types
import Mathlib.Data.List.Sort
import Mathlib.Data.Finset.Basic

/-!
# The jobs of the add-on

`app/models.py`, `app/db.py` and `app/firmware_store.py`, as far as the OTA and compile jobs use
them: the table `ota_jobs` and the firmware files.

Rows are kept in the order of their ids, which are never used twice.  A column stands here if some
modelled function looks at it: texts, sizes and checksums that are only handed on are left out.  Of
the event log of a job only one thing is kept, whether it tells that a compilation has failed.  SQL
leaves the order of rows with equal keys open; they come in the order of their ids.

A file is named by the upload that made it and by the jobs that retained it, as in
`job-7-9f…e2.bin`.  `uuid4` is modelled by a counter.
-/

namespace EspTree.AddOn

open Wire

/-- The job statuses of `models.py`. -/
inductive Status
  | pendingConfirm | compileQueued | compiling | compileSuccess
  | queued | starting | announcing | transferring | verifying | waitingRejoin
  | success | failed | aborted | rejoinTimeout | versionMismatch
  deriving DecidableEq, Repr

namespace Status

/-- `TERMINAL_STATUSES`. -/
def isTerminal : Status → Bool
  | compileSuccess | success | failed | aborted | rejoinTimeout | versionMismatch => true
  | _ => false

/-- `ACTIVE_STATUSES`. -/
def isActive : Status → Bool
  | compileQueued | compiling | queued | starting | announcing | transferring | verifying
  | waitingRejoin => true
  | _ => false

/-- `FLASH_STATUSES`. -/
def isFlash : Status → Bool
  | starting | announcing | transferring | verifying | waitingRejoin => true
  | _ => false

theorem isActive_of_isFlash {s : Status} (h : s.isFlash = true) : s.isActive = true := by
  cases s <;> first | rfl | cases h

theorem not_isTerminal_of_isActive {s : Status} (h : s.isActive = true) : s.isTerminal = false := by
  cases s <;> first | rfl | cases h

end Status

/-- The path of a firmware file, under `active` or under `retained`. -/
structure Path where
  retained : Bool := false
  jobs : List Nat := []
  upload : Nat
  deriving DecidableEq, Repr

/-- `retained_dir / f"job-{job_id}-{source.name}"`. -/
def Path.retainedFor (source : Path) (job : Nat) : Path :=
  { retained := true, jobs := job :: source.jobs, upload := source.upload }

/-- A row of `ota_jobs`. -/
structure Job where
  id : Nat
  mac : Mac
  status : Status
  firmwarePath : Option Path := none
  retainedUntil : Option Nat := none
  parsedVersion : String := ""
  errorMsg : Option String := none
  queueOrder : Option Nat := none
  esphomeName : String := ""
  autoFlash : Bool := false
  compileFailed : Bool := false
  createdAt : Nat := 0
  deriving DecidableEq

/-- The table `ota_jobs`. -/
structure Database where
  jobs : List Job := []
  nextId : Nat := 1
  deriving DecidableEq

namespace Database

variable (db : Database)

def getJob (id : Nat) : Option Job := db.jobs.find? fun job => job.id == id

/-- `update_job`: the columns that `f` changes. -/
def updateJob (id : Nat) (f : Job → Job) : Database :=
  { db with jobs := db.jobs.map fun job => if job.id = id then f job else job }

/-- `DELETE FROM ota_jobs WHERE id = ?`. -/
def deleteJob (id : Nat) : Database := { db with jobs := db.jobs.filter fun job => job.id ≠ id }

def markTerminal (id : Nat) (status : Status) (errorMsg : Option String) : Database :=
  db.updateJob id fun job =>
    { job with status, errorMsg := if errorMsg = none then job.errorMsg else errorMsg }

def clearJobFirmware (id : Nat) : Database :=
  db.updateJob id fun job => { job with firmwarePath := none, retainedUntil := none }

/-- `ORDER BY created_at ASC`. -/
def byCreation (jobs : List Job) : List Job := jobs.insertionSort fun a b => a.createdAt ≤ b.createdAt

/-- `ORDER BY queue_order ASC`, where `NULL` comes first. -/
def byQueueOrder (jobs : List Job) : List Job :=
  jobs.insertionSort fun a b => (a.queueOrder.map (· + 1)).getD 0 ≤ (b.queueOrder.map (· + 1)).getD 0

def activeJob : Option Job := (byCreation (db.jobs.filter (·.status.isFlash))).head?

def activeJobForDevice (mac : Mac) : Option Job :=
  (byCreation (db.jobs.filter fun job => job.mac == mac && job.status.isActive)).head?

/-- `get_job_by_mac_and_status`: the newest. -/
def getJobByMacAndStatus (mac : Mac) (status : Status) : Option Job :=
  ((db.jobs.filter fun job => job.mac == mac && job.status == status).insertionSort
    fun a b => b.createdAt ≤ a.createdAt).head?

def getLatestCompileJobForDevice (mac : Mac) : Option Job :=
  ((db.jobs.filter fun job => job.mac == mac && (job.status == .compileQueued ||
    job.status == .compiling || job.status == .compileSuccess ||
    (job.status == .failed && job.compileFailed))).insertionSort
      fun a b => b.createdAt < a.createdAt ∨ b.createdAt = a.createdAt ∧ b.id ≤ a.id).head?

def listJobsByStatus (status : Status) : List Job := db.jobs.filter fun job => job.status == status

def queuedJobs : List Job := byQueueOrder (db.listJobsByStatus .queued)

def nextQueuedJob : Option Job := db.queuedJobs.head?

def countQueuedBefore (id : Nat) : Nat :=
  match (db.getJob id).bind (·.queueOrder) with
  | none => 0
  | some order => ((db.listJobsByStatus .queued).filter fun job => job.queueOrder.any (· < order)).length

def activeCompileJob : Option Job := (byCreation (db.listJobsByStatus .compiling)).head?

def nextCompileQueuedJob : Option Job := (byQueueOrder (db.listJobsByStatus .compileQueued)).head?

def expiredRetained (now : Nat) : List Job :=
  db.jobs.filter fun job => job.firmwarePath.isSome && job.retainedUntil.any (· ≤ now)

/-- `_flash_work_pending`, but for the job with the id. -/
def flashWorkPending (current : Option Nat) : Bool :=
  db.activeJob.any (fun job => current != some job.id) || !db.queuedJobs.isEmpty

/-- Give the ids in the list their places in it. -/
def renumber (ids : List Nat) : Database :=
  (ids.zipIdx).foldl (fun db (id, order) =>
    db.updateJob id fun job => { job with queueOrder := some order }) db

def reorderQueue (id newOrder : Nat) : Database :=
  let ids := db.queuedJobs.map (·.id)
  if id ∉ ids then db
  else
    let others := ids.erase id
    db.renumber (others.take newOrder ++ id :: others.drop newOrder)

def abortQueuedJob (id : Nat) : Database :=
  let db := db.deleteJob id
  db.renumber (db.queuedJobs.map (·.id))

def abortCompileQueuedJob (id : Nat) : Database :=
  let db := db.deleteJob id
  db.renumber ((byQueueOrder (db.listJobsByStatus .compileQueued)).map (·.id))

/-- One more than the greatest place among the jobs with the status. -/
def nextOrder (status : Status) : Nat :=
  ((db.listJobsByStatus status).filterMap (·.queueOrder)).foldl (fun n order => max n (order + 1)) 0

/-- `create_job`: a queued job gets the place after all others. -/
def createJob (values : Job) (now : Nat) : Database × Job :=
  let job := { values with
    id := db.nextId
    queueOrder := if values.status = .queued ∨ values.status = .compileQueued then
      some (db.nextOrder values.status) else values.queueOrder
    createdAt := now }
  ({ jobs := db.jobs ++ [job], nextId := db.nextId + 1 }, job)

end Database

/-! ## Firmware files -/

/-- `FirmwareStore`: the files that are there, and the number of the next upload. -/
structure FirmwareStore where
  files : Finset Path := ∅
  uploads : Nat := 0
  deriving DecidableEq

namespace FirmwareStore

variable (store : FirmwareStore)

/-- A new file under `active`. -/
def create : FirmwareStore × Path :=
  let path : Path := { upload := store.uploads }
  ({ files := insert path store.files, uploads := store.uploads + 1 }, path)

/-- `retain`: the file moves to the retained ones, under the job's name. -/
def retain (path : Option Path) (job : Nat) (retainedUntil : Nat) :
    FirmwareStore × Option Path × Option Nat :=
  match path with
  | none => (store, none, none)
  | some source =>
    if source ∉ store.files then (store, none, none)
    else
      let target := source.retainedFor job
      let files := if source = target then store.files else insert target (store.files.erase source)
      ({ store with files }, some target, some retainedUntil)

def deleteFile (path : Option Path) : FirmwareStore :=
  match path with
  | none => store
  | some path => { store with files := store.files.erase path }

end FirmwareStore

end EspTree.AddOn
