import Jasil.Core.Limits
import Jasil.Jobs.Models
import Jasil.Paging.Pages

/-! # Workers and their attempts
What the workers record of themselves, and what an operator reads of them: `getWorkersSummary`, one page of
worker instances with what is known of each, and `getWorkerAttempts`, one page of the attempts of one
instance. -/

namespace Jasil.Jobs

open Keyset (Page)

/-- A row of `jasil_job_workers`: a worker instance and its latest heartbeat. -/
structure JobWorker where
  instanceId : WorkerId
  startedAt : Instant
  lastHeartbeatAt : Instant
  stoppedAt : Option Instant
  /-- `NULL` for all queues. -/
  queues : Option (List String)
  role : Option String
  label : Option String
  workerMetadata : Option JsonObject

/-! ## What workers write -/

/-- What a worker says of itself when it starts or beats; the queues and the descriptors are normalised. -/
structure WorkerDescription where
  instanceId : WorkerId
  startedAt : Instant
  queues : Option (List String)
  role : Option String
  label : Option String
  metadata : Option JsonObject

/-- The row of a worker that starts. -/
def WorkerDescription.row (d : WorkerDescription) : JobWorker :=
  ⟨d.instanceId, d.startedAt, d.startedAt, none, d.queues, d.role, d.label, d.metadata⟩

/-- The row of a worker instance, written over. -/
def WorkerDescription.restore (d : WorkerDescription) (w : JobWorker) : JobWorker :=
  { d.row with instanceId := w.instanceId }

/-- `record_worker_start`: insert or restore one worker instance row. -/
def recordWorkerStart (workers : Table JobWorker.instanceId) (d : WorkerDescription) :
    Table JobWorker.instanceId :=
  (workers.insert d.row).update (·.instanceId = d.instanceId) d.restore fun _ => rfl

/-- `record_worker_heartbeat`: refresh a heartbeat, recreating a row that is not there. -/
def recordWorkerHeartbeat (workers : Table JobWorker.instanceId) (d : WorkerDescription) (now : Instant) :
    Table JobWorker.instanceId :=
  (workers.insert d.row).update (·.instanceId = d.instanceId)
    (fun w => { w with lastHeartbeatAt := now }) fun _ => rfl

/-- `record_worker_stop`. -/
def recordWorkerStop (workers : Table JobWorker.instanceId) (instanceId : WorkerId) (now : Instant) :
    Table JobWorker.instanceId :=
  workers.update (·.instanceId = instanceId)
    (fun w => { w with lastHeartbeatAt := now, stoppedAt := some now }) fun _ => rfl

/-! ## What an operator reads -/

/-- `WorkerStatus`. -/
inductive WorkerStatus
  | running
  | stale
  | stopped
  deriving DecidableEq, Repr

/-- How the attempts of a worker ended in a window; nothing is known when attempts are not recorded. -/
structure OutcomeCounts where
  completed : Option ℕ
  failed : Option ℕ
  deadLettered : Option ℕ
  leaseExpired : Option ℕ
  superseded : Option ℕ
  released : Option ℕ
  abandoned : Option ℕ

/-- A worker instance as it is shown. -/
structure WorkerInfo where
  worker : JobWorker
  activeClaimedJobs : ℕ
  status : WorkerStatus
  outcomes : OutcomeCounts
  lastFinishedAt : Option Instant

/-- The counts of the workers by status. -/
structure WorkersSummary where
  staleAfterSeconds : ℚ
  windowHours : ℤ
  claimedByStaleWorkers : ℕ
  totalWorkers : ℕ
  running : ℕ
  stale : ℕ
  stopped : ℕ
  workers : List WorkerInfo
  nextCursor : Option String

/-- `MAX_WORKER_PAGE_SIZE`. -/
def maxWorkerPageSize : ℤ := 500

/-- `MAX_WORKER_ATTEMPT_PAGE_SIZE`. -/
def maxWorkerAttemptPageSize : ℤ := 500

/-- `age_seconds`. -/
def ageSeconds (moment now : Instant) : ℚ := max 0 ((now - moment : ℤ) / 1000000)

/-- `_outcome_counts`. -/
def outcomeCounts (counts : Outcome → ℕ) (recordAttempts : Bool) : OutcomeCounts :=
  let count (outcome : Outcome) : Option ℕ := if recordAttempts then some (counts outcome) else none
  ⟨count .completed, count .failed, count .deadLetter, count .leaseExpired, count .superseded,
    count .released, count .abandoned⟩

/-- What is shown of one worker. -/
def workerInfo (db : Db) (now : Instant) (staleAfterSeconds : ℚ) (hours : ℤ)
    (recordAttempts : Bool) (row : JobWorker) : WorkerInfo :=
  let finished := if recordAttempts then
      db.attempts.select fun a =>
        a.workerId = row.instanceId ∧ ∃ f ∈ a.finishedAt, now - hours * 3600000000 ≤ f
    else []
  { worker := row
    activeClaimedJobs :=
      db.jobs.rowcount fun j => j.status = .claimed ∧ j.lockedBy = some row.instanceId
    status :=
      if row.stoppedAt ≠ none then .stopped
      else if staleAfterSeconds < ageSeconds row.lastHeartbeatAt now then .stale
      else .running
    outcomes := outcomeCounts (fun o => finished.countP (·.outcome = some o)) recordAttempts
    lastFinishedAt := (finished.filterMap (·.finishedAt)).max? }

variable {κ : Type*} [LinearOrder κ]

/-- `get_workers_summary`. -/
def getWorkersSummary (collate : String ↪ κ) (workers : Table JobWorker.instanceId) (db : Db)
    (now : Instant) (staleAfterSeconds : ℚ) (limit : ℤ) (cursor : Option String) (hours : ℤ)
    (recordAttempts : Bool) : Except String WorkersSummary :=
  if ¬(0 < staleAfterSeconds ∧ staleAfterSeconds ≤ maxJobSeconds) then
    .error ("stale_after_seconds must be greater than zero and at most " ++ toString maxJobSeconds)
  else do
    checkLimit limit maxWorkerPageSize "limit"
    let staleBefore := now - timedelta staleAfterSeconds
    let page ← readPage collate JobWorker.startedAt JobWorker.instanceId "worker summary" limit.toNat
      workers.rows cursor
    .ok
      { staleAfterSeconds
        windowHours := hours
        claimedByStaleWorkers :=
          (db.jobs.select fun j => j.status = .claimed ∧
            ∃ w ∈ workers.rows, j.lockedBy = some w.instanceId ∧ w.stoppedAt = none
              ∧ w.lastHeartbeatAt < staleBefore).length
        totalWorkers := workers.rows.length
        running := workers.rowcount fun w => w.stoppedAt = none ∧ staleBefore ≤ w.lastHeartbeatAt
        stale := workers.rowcount fun w => w.stoppedAt = none ∧ w.lastHeartbeatAt < staleBefore
        stopped := workers.rowcount fun w => w.stoppedAt ≠ none
        workers := page.rows.map (workerInfo db now staleAfterSeconds hours recordAttempts)
        nextCursor := page.nextCursor }

/-- One page of the attempts of a worker instance. -/
structure WorkerAttempts where
  instanceId : WorkerId
  attempts : List JobAttempt
  nextCursor : Option String
  attemptsRecorded : Bool

/-- `get_worker_attempts`. -/
def getWorkerAttempts (collate : String ↪ κ) (attempts : Table JobAttempt.id) (instanceId : WorkerId)
    (limit : ℤ) (cursor : Option String) (recordAttempts : Bool) : Except String WorkerAttempts := do
  checkLimit limit maxWorkerAttemptPageSize "limit"
  let page ← readPage collate JobAttempt.claimedAt JobAttempt.id "worker attempts" limit.toNat
    (attempts.select fun a => a.workerId = instanceId) cursor
  .ok ⟨instanceId, page.rows, page.nextCursor, recordAttempts⟩

/-- The rows a summary is about, and where it continues. -/
def WorkersSummary.page (s : WorkersSummary) : Page JobWorker String :=
  ⟨s.workers.map WorkerInfo.worker, s.nextCursor⟩

/-- The rows a page of attempts shows, and where it continues. -/
def WorkerAttempts.page (s : WorkerAttempts) : Page JobAttempt String := ⟨s.attempts, s.nextCursor⟩

/-- A limit between one and the maximum passes. -/
theorem checkLimit_ok {limit maximum : ℤ} (name : String) (h1 : 1 ≤ limit) (hmax : limit ≤ maximum) :
    checkLimit limit maximum name = .ok () := if_pos ⟨h1, hmax⟩

/-- Whatever is shown of the workers, an accepted call reads one page of them. -/
theorem getWorkersSummary_page (collate : String ↪ κ) (workers : Table JobWorker.instanceId)
    (db : Db) (now : Instant) {staleAfterSeconds : ℚ} {limit : ℤ} (cursor : Option String)
    (hours : ℤ) (recordAttempts : Bool)
    (hstale : 0 < staleAfterSeconds ∧ staleAfterSeconds ≤ maxJobSeconds) (h1 : 1 ≤ limit)
    (hmax : limit ≤ maxWorkerPageSize) :
    (getWorkersSummary collate workers db now staleAfterSeconds limit cursor hours
        recordAttempts).map WorkersSummary.page
      = readPage collate JobWorker.startedAt JobWorker.instanceId "worker summary" limit.toNat
          workers.rows cursor := by
  have hrow : WorkerInfo.worker ∘ workerInfo db now staleAfterSeconds hours recordAttempts = id := by
    funext row
    rfl
  unfold getWorkersSummary
  rw [if_neg (not_not.mpr hstale), checkLimit_ok _ h1 hmax]
  cases readPage collate JobWorker.startedAt JobWorker.instanceId "worker summary" limit.toNat
      workers.rows cursor with
  | error e => rfl
  | ok page =>
    show Except.ok (Page.mk ((page.rows.map _).map WorkerInfo.worker) page.nextCursor) = _
    rw [List.map_map, hrow, List.map_id]

/-- A page of a worker's attempts is one of the page query. -/
theorem getWorkerAttempts_page (collate : String ↪ κ) (attempts : Table JobAttempt.id)
    (instanceId : WorkerId) {limit : ℤ} (cursor : Option String) (recordAttempts : Bool)
    (h1 : 1 ≤ limit) (hmax : limit ≤ maxWorkerAttemptPageSize) :
    (getWorkerAttempts collate attempts instanceId limit cursor recordAttempts).map
        WorkerAttempts.page
      = readPage collate JobAttempt.claimedAt JobAttempt.id "worker attempts" limit.toNat
          (attempts.select fun a => a.workerId = instanceId) cursor := by
  unfold getWorkerAttempts
  rw [checkLimit_ok _ h1 hmax]
  cases readPage collate JobAttempt.claimedAt JobAttempt.id "worker attempts" limit.toNat
      (attempts.select fun a => a.workerId = instanceId) cursor with
  | error e => rfl
  | ok page => rfl

end Jasil.Jobs
