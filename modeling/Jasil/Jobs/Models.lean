import Jasil.Core.Timestamps
import Jasil.Relational.Table
import Jasil.Text.Json

/-! # The job tables
The rows of `jasil_processing_jobs`, `jasil_job_attempts` and `jasil_event_outbox`, and the event
envelope they carry. A `NULL`able column is an `Option`; an integer column is an `ℤ`; the status and
outcome columns, which only ever hold the constants the code names, are enumerations. Identifiers
are the strings the code mints or is given. -/

namespace Jasil

namespace Jobs

/-- `processing_jobs.id`. -/
abbrev JobId := String
/-- `job_attempts.id`. -/
abbrev AttemptId := String
/-- `event_outbox.id`. -/
abbrev OutboxId := String
/-- The id of a worker instance. -/
abbrev WorkerId := String
/-- The id of a durable subscriber. -/
abbrev SubscriberId := String

/-- The envelope every event travels in. -/
structure Event where
  eventId : String
  eventType : String
  source : String
  timestamp : String
  payload : JsonObject
  metadata : JsonObject := []
  retryCount : ℤ := 0
  schemaVersion : ℤ := 1
  maxAttempts : Option ℤ := none
  deferralCount : ℤ := 0
  continuationCount : ℤ := 0

/-- `processing_jobs.status`. -/
inductive Status
  | pending
  | claimed
  | completed
  | deadLetter
  deriving DecidableEq, Repr

/-- `job_attempts.outcome`: how one attempt to run a job ended. -/
inductive Outcome
  | completed
  | failed
  | deferred
  | continued
  | deadLetter
  | leaseExpired
  | superseded
  | released
  | abandoned
  deriving DecidableEq, Repr

/-- A row of `jasil_processing_jobs`: one subscriber reacting to one event. -/
structure ProcessingJob where
  id : JobId
  queue : String
  eventId : String
  eventType : String
  subscriberId : SubscriberId
  source : String
  eventTimestamp : Option String
  payload : JsonObject
  schemaVersion : ℤ
  jobMetadata : Option JsonObject
  status : Status
  /-- Claims so far, deferred ones included; fences the claim. -/
  attempts : ℤ
  deferrals : ℤ
  continuations : ℤ
  /-- `attempts - deferrals` as of the last continuation. -/
  budgetOffset : ℤ
  maxAttempts : ℤ
  /-- Earliest instant the job may be claimed. -/
  availableAt : Instant
  lockedBy : Option WorkerId
  lockedAt : Option Instant
  leaseExpiresAt : Option Instant
  lastError : Option String
  createdAt : Instant
  updatedAt : Instant
  completedAt : Option Instant
  deadLetterNotifiedAt : Option Instant
  deadLetterNotifyAfter : Option Instant
  deadLetterAttempts : ℤ
  deadLetterCallbackError : Option String

/-- What the job has spent of `max_attempts`: its claims, less the deferred ones and the ones up to
the last continuation. -/
def ProcessingJob.spent (j : ProcessingJob) : ℤ := j.attempts - j.deferrals - j.budgetOffset

/-- A row of `jasil_job_attempts`: one attempt to run a job. -/
structure JobAttempt where
  id : AttemptId
  jobId : JobId
  eventId : String
  eventType : String
  subscriberId : SubscriberId
  queue : String
  /-- `processing_jobs.attempts` at the claim. -/
  attempt : ℤ
  workerId : WorkerId
  claimedAt : Instant
  startedAt : Option Instant := none
  finishedAt : Option Instant := none
  outcome : Option Outcome := none
  durationMs : Option ℤ := none
  error : Option String := none
  deriving DecidableEq, Repr

/-- A row of `jasil_event_outbox`: one published event, staged for the relay. -/
structure EventOutbox where
  id : OutboxId
  eventId : String
  eventType : String
  source : String
  timestamp : String
  payload : JsonObject
  schemaVersion : ℤ
  eventMetadata : Option JsonObject
  createdAt : Instant
  relayedAt : Option Instant := none

/-- The two tables the job operations read and write. -/
structure Db where
  jobs : Table ProcessingJob.id
  attempts : Table JobAttempt.id

/-- The tables of a fresh installation. -/
def Db.empty : Db := ⟨Table.empty, Table.empty⟩

end Jobs

end Jasil
