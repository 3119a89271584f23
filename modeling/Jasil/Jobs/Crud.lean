import Jasil.Core.Limits
import Jasil.Jobs.Attempts
import Jasil.Jobs.Backoff
import Jasil.Jobs.Queues

/-! # Operations on `processing_jobs`
The durable work queue as functions on the two job tables. Each function is one committed
transaction of the code: it takes the tables before and returns its result with the tables after.
What the code asks of its surroundings (the instant, a fresh identifier, a random draw, the order a
scan without `ORDER BY` returns) is an argument. `claimUpdate` and `claimReadBack` are the two halves
of `claimJobs` around its commit, for the runs in which other workers act between them. -/

namespace Jasil.Jobs

/-! ## Enqueueing -/

/-- `values` of `insert_job`: the row a new job starts as. -/
def newJob (event : Event) (subscriberId : SubscriberId) (queue : String) (maxAttempts : ℤ)
    (now : Instant) (availableAt : Option Instant) (jobId : JobId) : ProcessingJob where
  id := jobId
  queue := queue
  eventId := event.eventId
  eventType := event.eventType
  subscriberId := subscriberId
  source := event.source
  eventTimestamp := some event.timestamp
  payload := event.payload
  schemaVersion := event.schemaVersion
  jobMetadata := if event.metadata.isEmpty then none else some event.metadata
  status := .pending
  attempts := 0
  deferrals := 0
  continuations := 0
  budgetOffset := 0
  maxAttempts := maxAttempts
  availableAt := availableAt.getD now
  lockedBy := none
  lockedAt := none
  leaseExpiresAt := none
  lastError := none
  createdAt := now
  updatedAt := now
  completedAt := none
  deadLetterNotifiedAt := none
  deadLetterNotifyAfter := none
  deadLetterAttempts := 0
  deadLetterCallbackError := none

/-- Two jobs that the unique constraint on `(event_id, subscriber_id)` keeps apart. -/
def SameWork (j j' : ProcessingJob) : Prop :=
  j.eventId = j'.eventId ∧ j.subscriberId = j'.subscriberId

instance (j j' : ProcessingJob) : Decidable (SameWork j j') :=
  inferInstanceAs (Decidable (_ ∧ _))

/-- Insert one job, or nothing when a job for `(event, subscriber)` exists. Returns the id the job
was given. -/
def insertJob (db : Db) (event : Event) (subscriberId : SubscriberId) (queue : String)
    (maxAttempts : ℤ) (now : Instant) (availableAt : Option Instant) (jobId : JobId) :
    Except String (JobId × Db) := do
  let queue ← validateQueueName queue
  let job := newJob event subscriberId queue maxAttempts now availableAt jobId
  if db.jobs.rows.any (SameWork job ·) then return (jobId, db)
  else return (jobId, { db with jobs := db.jobs.insert job })

/-! ## Claiming -/

/-- The arguments of `claim_jobs`. -/
structure ClaimRequest where
  workerId : WorkerId
  limit : ℕ
  leaseSeconds : ℤ
  now : Instant
  queues : Option (List String) := none
  queueCursor : Option String := none
  defaultQueueSubscribers : List SubscriberId := []
  excludedDefaultQueueSubscribers : List SubscriberId := []
  recordAttempts : Bool := true

/-- The queue part of the claim's `WHERE` clause, for the normalised allowlist `selected`. -/
def ClaimRequest.QueueFilter (r : ClaimRequest) (selected : Option (List String))
    (j : ProcessingJob) : Prop :=
  match selected with
  | none => True
  | some queues =>
    if defaultQueue ∈ queues ∧ r.excludedDefaultQueueSubscribers ≠ [] then
      j.queue ∈ queues ∧
        (j.queue ≠ defaultQueue ∨ j.subscriberId ∉ r.excludedDefaultQueueSubscribers)
    else if r.defaultQueueSubscribers ≠ [] ∧ defaultQueue ∉ queues then
      j.queue ∈ queues ∨ (j.queue = defaultQueue ∧ j.subscriberId ∈ r.defaultQueueSubscribers)
    else j.queue ∈ queues

instance (r : ClaimRequest) (selected : Option (List String)) :
    DecidablePred (r.QueueFilter selected) := fun j => by
  unfold ClaimRequest.QueueFilter
  cases selected <;> infer_instance

/-- `filters` of the claim: pending, due, and in a queue the worker takes. -/
def ClaimRequest.Due (r : ClaimRequest) (selected : Option (List String)) (j : ProcessingJob) :
    Prop :=
  j.status = .pending ∧ j.availableAt ≤ r.now ∧ r.QueueFilter selected j

instance (r : ClaimRequest) (selected : Option (List String)) : DecidablePred (r.Due selected) :=
  fun _ => inferInstanceAs (Decidable (_ ∧ _ ∧ _))

/-- The order of one range scan: by queue, then oldest available first. -/
def scanKey (j : ProcessingJob) : String ×ₗ Instant ×ₗ Instant ×ₗ JobId :=
  toLex (j.queue, toLex (j.availableAt, toLex (j.createdAt, j.id)))

/-- `ranges`: the queues after the cursor, then those up to it; one range when there is no cursor. -/
def scanRanges : Option String → List (ProcessingJob → Bool)
  | none => [fun _ => true]
  | some cursor => [fun j => cursor < j.queue, fun j => j.queue ≤ cursor]

/-- One range scan: up to `remaining` ids of matching rows that no other transaction has locked. -/
def scanRange (db : Db) (filters : ProcessingJob → Prop) [DecidablePred filters]
    (bounds : ProcessingJob → Bool) (locked : List JobId) (remaining : ℕ) : List JobId :=
  (((db.jobs.select fun j => filters j ∧ bounds j = true ∧ j.id ∉ locked).insertionSort
    fun a b => scanKey a ≤ scanKey b).take remaining).map ProcessingJob.id

/-- Select up to `limit` due job ids, queues rotating after the cursor. With `FOR UPDATE SKIP
LOCKED` the rows `locked` by other transactions are passed over. -/
def selectDueIds (db : Db) (filters : ProcessingJob → Prop) [DecidablePred filters]
    (queueCursor : Option String) (limit : ℕ) (locked : List JobId) : List JobId :=
  (scanRanges queueCursor).foldl
    (fun jobIds bounds =>
      jobIds ++ scanRange db filters bounds locked (limit - jobIds.length)) []

/-- `SET` of the claim: the job is leased to `workerId` and the attempt is counted. -/
def ProcessingJob.claim (r : ClaimRequest) (j : ProcessingJob) : ProcessingJob :=
  { j with
    status := .claimed
    attempts := j.attempts + 1
    lockedBy := some r.workerId
    lockedAt := some r.now
    leaseExpiresAt := some (r.now + timedelta r.leaseSeconds)
    updatedAt := r.now }

/-- A claim leaves the id. -/
@[simp] theorem ProcessingJob.id_claim (r : ClaimRequest) (j : ProcessingJob) :
    (j.claim r).id = j.id := rfl

/-- The rows the claim's compare-and-set takes. -/
def Takes (jobIds : List JobId) (j : ProcessingJob) : Prop := j.id ∈ jobIds ∧ j.status = .pending

instance (jobIds : List JobId) : DecidablePred (Takes jobIds) :=
  fun _ => inferInstanceAs (Decidable (_ ∧ _))

/-- The claim up to its commit: the compare-and-set on `status = 'pending'` and the attempt rows. -/
def claimUpdate (db : Db) (r : ClaimRequest) (jobIds : List JobId) (mint : JobId → AttemptId) :
    Db :=
  let claimed : Db :=
    { db with jobs := db.jobs.update (Takes jobIds) (ProcessingJob.claim r) (ProcessingJob.id_claim r) }
  if r.recordAttempts then openAttempts claimed jobIds r.workerId r.now mint else claimed

/-- `position`: where the ids' last mention stands in the batch. -/
def batchPosition (jobIds : List JobId) (j : ProcessingJob) : ℕ :=
  jobIds.length - (jobIds.reverse.idxOf j.id + 1)

/-- The read-back after the commit: the rows of the batch this worker has a claim on, in rotation
order. -/
def claimReadBack (db : Db) (workerId : WorkerId) (jobIds : List JobId) : List ProcessingJob :=
  (db.jobs.select (ClaimedBy jobIds workerId)).insertionSort
    fun a b => batchPosition jobIds a ≤ batchPosition jobIds b

/-- A cursor, when there is one, has to be a valid queue name. -/
def checkQueueCursor : Option String → Except String Unit
  | none => .ok ()
  | some cursor => (validateQueueName cursor).map fun _ => ()

/-- Atomically claim up to `limit` due jobs, taking a time-bounded lease. -/
def claimJobs (db : Db) (r : ClaimRequest) (mint : JobId → AttemptId) :
    Except String (List ProcessingJob × Db) := do
  let selected ← normalizeQueueSelector r.queues
  checkQueueCursor r.queueCursor
  let jobIds := selectDueIds db (r.Due selected) r.queueCursor r.limit []
  if jobIds.isEmpty then return ([], db)
  else
    let committed := claimUpdate db r jobIds mint
    return (claimReadBack committed r.workerId jobIds, committed)

/-! ## Moving the jobs of the default queue -/

/-- `by_queue`: the subscribers of each queue but the default one. -/
def byQueue (assignments : List (SubscriberId × String)) : List (String × List SubscriberId) :=
  ((assignments.map Prod.snd).filter (· ≠ defaultQueue)).eraseDups.map fun queue =>
    (queue, (assignments.filter fun e => e.2 = queue).map Prod.fst)

/-- A pending job of the default queue whose subscriber is among these. -/
def Legacy (subscriberIds : List SubscriberId) (j : ProcessingJob) : Prop :=
  j.status = .pending ∧ j.queue = defaultQueue ∧ j.subscriberId ∈ subscriberIds

instance (subscriberIds : List SubscriberId) : DecidablePred (Legacy subscriberIds) :=
  fun _ => inferInstanceAs (Decidable (_ ∧ _ ∧ _))

/-- `SET` of a move. -/
def ProcessingJob.retag (queue : String) (j : ProcessingJob) : ProcessingJob := { j with queue := queue }

/-- A move leaves the id. -/
@[simp] theorem ProcessingJob.id_retag (queue : String) (j : ProcessingJob) :
    (j.retag queue).id = j.id := rfl

/-- Move the jobs of one queue's subscribers. -/
def retagQueue (acc : ℕ × Db) (group : String × List SubscriberId) : ℕ × Db :=
  (acc.1 + acc.2.jobs.rowcount (Legacy group.2),
    { acc.2 with
      jobs := acc.2.jobs.update (Legacy group.2) (ProcessingJob.retag group.1)
        (ProcessingJob.id_retag group.1) })

/-- `backfill_legacy_queues`: move pending jobs of the default queue to the queue of their subscriber;
returns how many. -/
def backfillLegacyQueues (db : Db) (assignments : List (SubscriberId × String)) : ℕ × Db :=
  (byQueue assignments).foldl retagQueue (0, db)

/-! ## Ownership -/

/-- `_held_claims`: the claims `workerId` still holds, each at the attempt it took. -/
def HeldClaim (jobAttempts : JobAttempts) (workerId : WorkerId) (j : ProcessingJob) : Prop :=
  ClaimsMatch jobAttempts j.id j.attempts ∧ j.status = .claimed ∧ j.lockedBy = some workerId

instance (jobAttempts : JobAttempts) (workerId : WorkerId) :
    DecidablePred (HeldClaim jobAttempts workerId) :=
  fun _ => inferInstanceAs (Decidable (_ ∧ _ ∧ _))

/-- One exact claim of a job, as the worker that took it names it. -/
@[ext] structure ClaimGeneration where
  jobId : JobId
  workerId : WorkerId
  attempt : ℤ
  deriving DecidableEq, Repr

/-- `_owned_claim`: the row is still under this claim generation. -/
def OwnedClaim (claim : ClaimGeneration) (j : ProcessingJob) : Prop :=
  j.id = claim.jobId ∧ j.status = .claimed ∧ j.lockedBy = some claim.workerId ∧
    j.attempts = claim.attempt

instance (claim : ClaimGeneration) : DecidablePred (OwnedClaim claim) :=
  fun _ => inferInstanceAs (Decidable (_ ∧ _ ∧ _ ∧ _))

/-! ## Keeping and releasing a lease -/

/-- `SET` of a renewal. -/
def ProcessingJob.renew (leaseSeconds : ℤ) (now : Instant) (j : ProcessingJob) : ProcessingJob :=
  { j with leaseExpiresAt := some (now + timedelta leaseSeconds), updatedAt := now }

/-- A renewal leaves the id. -/
@[simp] theorem ProcessingJob.id_renew (leaseSeconds : ℤ) (now : Instant) (j : ProcessingJob) :
    (j.renew leaseSeconds now).id = j.id := rfl

/-- Extend the lease of claimed jobs this worker still holds; returns the ids renewed. -/
def renewLeases (db : Db) (jobAttempts : JobAttempts) (workerId : WorkerId) (leaseSeconds : ℤ)
    (now : Instant) : List JobId × Db :=
  if jobAttempts.isEmpty then ([], db)
  else
    let jobs :=
      db.jobs.update (HeldClaim jobAttempts workerId) (ProcessingJob.renew leaseSeconds now)
        (ProcessingJob.id_renew leaseSeconds now)
    ((jobs.select (HeldClaim jobAttempts workerId)).map ProcessingJob.id, { db with jobs := jobs })

/-- `SET` of a release: available at once, with the attempt this claim took given back. -/
def ProcessingJob.release (now : Instant) (j : ProcessingJob) : ProcessingJob :=
  { j with
    status := .pending
    attempts := j.attempts - 1
    availableAt := now
    updatedAt := now
    lockedBy := none
    lockedAt := none
    leaseExpiresAt := none }

/-- A release leaves the id. -/
@[simp] theorem ProcessingJob.id_release (now : Instant) (j : ProcessingJob) :
    (j.release now).id = j.id := rfl

/-- Return claimed jobs this worker will not run to `pending`; returns how many. -/
def releaseLeases (db : Db) (jobAttempts : JobAttempts) (workerId : WorkerId) (now : Instant)
    (recordAttempts : Bool) : ℕ × Db :=
  if jobAttempts.isEmpty then (0, db)
  else
    let released := db.jobs.rowcount (HeldClaim jobAttempts workerId)
    let db : Db :=
      { db with
        jobs := db.jobs.update (HeldClaim jobAttempts workerId) (ProcessingJob.release now)
          (ProcessingJob.id_release now) }
    (released,
      if recordAttempts ∧ released ≠ 0 then (closeOpen db jobAttempts workerId .released now).2
      else db)

/-! ## Settling a claim -/

/-- What a settling call reports. The empty string of the code, for a claim no longer owned, is
`none`. -/
inductive SettleStatus
  | completed
  | pending
  | deadLetter
  | deferred
  | deferralsExhausted
  | continued
  | continuationsExhausted
  deriving DecidableEq, Repr

/-- The call left the job untouched: it has used up what it asked for. -/
def SettleStatus.isExhausted : SettleStatus → Bool
  | .deferralsExhausted | .continuationsExhausted => true
  | _ => false

/-- A `SET` clause that leaves the primary key alone. -/
structure RowWrite where
  set : ProcessingJob → ProcessingJob
  keepsId : ∀ j, (set j).id = j.id

/-- What a settling call makes of the row of a claim it still owns. -/
inductive Verdict
  /-- Leave the row as it is and only report. -/
  | exhausted (status : SettleStatus)
  /-- Write the row and close the attempt with `outcome`. -/
  | write (status : SettleStatus) (outcome : Outcome) (row : RowWrite)

/-- What every settling call is given besides its claim. -/
structure SettleArgs where
  now : Instant
  durationMs : Option ℤ := none
  recordAttempt : Bool := true

/-- The write a settling call shares: `row` under the ownership test, when there is one to make, and
the attempt row with it. Returns whether the claim was owned. -/
def settleClaim (db : Db) (claim : ClaimGeneration) (args : SettleArgs) (error : Option String)
    (outcome : Outcome) (row : Option RowWrite) : Bool × Db :=
  let (owned, db) : Bool × Db :=
    match row with
    | none => (false, db)
    | some row =>
      (db.jobs.rowcount (OwnedClaim claim) == 1,
        { db with jobs := db.jobs.update (OwnedClaim claim) row.set row.keepsId })
  (owned,
    if args.recordAttempt then
      finishAttempt db claim.jobId claim.workerId claim.attempt args.now outcome args.durationMs
        error owned
    else db)

/-- The settling calls that read the row of the claim first and decide what to do from it. -/
def settleRead (db : Db) (claim : ClaimGeneration) (args : SettleArgs) (error : Option String)
    (late : Outcome) (verdict : ProcessingJob → Verdict) : Option SettleStatus × Db :=
  match (db.jobs.select (OwnedClaim claim)).head? with
  | none => (none, (settleClaim db claim args error late none).2)
  | some state =>
    match verdict state with
    | .exhausted status => (some status, db)
    | .write status outcome row =>
      let (owned, db) := settleClaim db claim args error outcome (some row)
      (if owned then some status else none, db)

/-- `SET` of a completion. -/
def ProcessingJob.complete (now : Instant) (j : ProcessingJob) : ProcessingJob :=
  { j with
    status := .completed
    completedAt := some now
    updatedAt := now
    lastError := none
    lockedBy := none
    lockedAt := none
    leaseExpiresAt := none }

/-- A completion leaves the id. -/
@[simp] theorem ProcessingJob.id_complete (now : Instant) (j : ProcessingJob) :
    (j.complete now).id = j.id := rfl

/-- Mark a claimed job completed; returns whether this exact claim was. -/
def markJobCompleted (db : Db) (claim : ClaimGeneration) (args : SettleArgs) : Bool × Db :=
  settleClaim db claim args none .completed
    (some ⟨ProcessingJob.complete args.now, ProcessingJob.id_complete args.now⟩)

/-- The text kept of a failure, a deferral or a continuation. -/
def storedError (text : String) : Option String := fitLength (some text) maxStoredErrorLength

/-- `SET` of a failure on the last attempt. -/
def ProcessingJob.failLast (error : Option String) (now : Instant) (j : ProcessingJob) :
    ProcessingJob :=
  { j with
    status := .deadLetter
    lastError := error
    updatedAt := now
    lockedBy := none
    lockedAt := none
    leaseExpiresAt := none
    completedAt := some now }

/-- A last failure leaves the id. -/
@[simp] theorem ProcessingJob.id_failLast (error : Option String) (now : Instant) (j : ProcessingJob) :
    (j.failLast error now).id = j.id := rfl

/-- `SET` of a failure that will be retried. -/
def ProcessingJob.failRetry (error : Option String) (now availableAt : Instant)
    (j : ProcessingJob) : ProcessingJob :=
  { j with
    status := .pending
    lastError := error
    updatedAt := now
    lockedBy := none
    lockedAt := none
    leaseExpiresAt := none
    availableAt := availableAt }

/-- A failure leaves the id. -/
@[simp] theorem ProcessingJob.id_failRetry (error : Option String) (now availableAt : Instant)
    (j : ProcessingJob) :
    (j.failRetry error now availableAt).id = j.id := rfl

/-- What a failure makes of the row: a dead letter when the budget is spent, else a retry after the
backoff. -/
def failVerdict (error : Option String) (baseSeconds maxSeconds : ℚ) (jitter : Option ℚ)
    (now : Instant) (state : ProcessingJob) : Verdict :=
  if state.maxAttempts ≤ state.spent then
    .write .deadLetter .deadLetter
      ⟨ProcessingJob.failLast error now, ProcessingJob.id_failLast error now⟩
  else
    let delay := backoffSeconds state.spent baseSeconds maxSeconds jitter
    .write .pending .failed
      ⟨ProcessingJob.failRetry error now (now + timedelta delay), ProcessingJob.id_failRetry _ _ _⟩

/-- Record a failed attempt if the caller still owns that exact claim. -/
def markJobFailed (db : Db) (claim : ClaimGeneration) (errorMessage : String)
    (baseSeconds maxSeconds : ℚ) (jitter : Option ℚ) (args : SettleArgs) :
    Option SettleStatus × Db :=
  settleRead db claim args (storedError errorMessage) .failed
    (failVerdict (storedError errorMessage) baseSeconds maxSeconds jitter args.now)

/-- `SET` of a deferral. -/
def ProcessingJob.defer (reason : Option String) (retryAt now : Instant) (j : ProcessingJob) :
    ProcessingJob :=
  { j with
    status := .pending
    deferrals := j.deferrals + 1
    availableAt := retryAt
    lastError := reason
    updatedAt := now
    lockedBy := none
    lockedAt := none
    leaseExpiresAt := none }

/-- A deferral leaves the id. -/
@[simp] theorem ProcessingJob.id_defer (reason : Option String) (retryAt now : Instant) (j : ProcessingJob) :
    (j.defer reason retryAt now).id = j.id := rfl

/-- What a deferral makes of the row: nothing once the job has used its deferrals. -/
def deferVerdict (reason : Option String) (retryAt : Instant) (maxDeferrals : ℤ) (now : Instant)
    (state : ProcessingJob) : Verdict :=
  if maxDeferrals ≤ state.deferrals then .exhausted .deferralsExhausted
  else
    .write .deferred .deferred
      ⟨ProcessingJob.defer reason retryAt now, ProcessingJob.id_defer reason retryAt now⟩

/-- Return a claimed job to `pending` for `retryAt` without spending an attempt. -/
def markJobDeferred (db : Db) (claim : ClaimGeneration) (reason : String) (retryAt : Instant)
    (maxDeferrals : ℤ) (args : SettleArgs) : Option SettleStatus × Db :=
  settleRead db claim args (storedError reason) .deferred
    (deferVerdict (storedError reason) retryAt maxDeferrals args.now)

/-- `SET` of a continuation: this claim and every one before it leave the failure budget. -/
def ProcessingJob.continued (reason : Option String) (availableAt now : Instant)
    (j : ProcessingJob) : ProcessingJob :=
  { j with
    status := .pending
    continuations := j.continuations + 1
    budgetOffset := j.attempts - j.deferrals
    availableAt := availableAt
    lastError := reason
    updatedAt := now
    lockedBy := none
    lockedAt := none
    leaseExpiresAt := none }

/-- A continuation leaves the id. -/
@[simp] theorem ProcessingJob.id_continued (reason : Option String) (availableAt now : Instant)
    (j : ProcessingJob) :
    (j.continued reason availableAt now).id = j.id := rfl

/-- What a continuation makes of the row: nothing once the job has used its continuations. -/
def continueVerdict (reason : Option String) (availableAt : Instant) (maxContinuations : ℤ)
    (now : Instant) (state : ProcessingJob) : Verdict :=
  if maxContinuations ≤ state.continuations then .exhausted .continuationsExhausted
  else
    .write .continued .continued
      ⟨ProcessingJob.continued reason availableAt now, ProcessingJob.id_continued _ _ _⟩

/-- Return a claimed job that made progress to `pending` for `availableAt`, restarting its failure
budget. -/
def markJobContinued (db : Db) (claim : ClaimGeneration) (reason : String) (availableAt : Instant)
    (maxContinuations : ℤ) (args : SettleArgs) : Option SettleStatus × Db :=
  settleRead db claim args (storedError reason) .continued
    (continueVerdict (storedError reason) availableAt maxContinuations args.now)

/-! ## Reaping and replaying -/

/-- The lease of a claimed row has run out. A row without a lease never has. -/
def LeaseExpired (now : Instant) (j : ProcessingJob) : Prop :=
  j.status = .claimed ∧ ∃ t ∈ j.leaseExpiresAt, t < now

instance (now : Instant) : DecidablePred (LeaseExpired now) :=
  fun _ => inferInstanceAs (Decidable (_ ∧ ∃ _ ∈ _, _))

/-- `SET` for an expired lease whose job has spent its budget. -/
def ProcessingJob.expireLast (now : Instant) (j : ProcessingJob) : ProcessingJob :=
  { j with
    status := .deadLetter
    lastError := some "lease expired; max attempts exhausted"
    completedAt := some now
    updatedAt := now
    lockedBy := none
    lockedAt := none
    leaseExpiresAt := none }

/-- A last expiry leaves the id. -/
@[simp] theorem ProcessingJob.id_expireLast (now : Instant) (j : ProcessingJob) :
    (j.expireLast now).id = j.id := rfl

/-- `SET` for an expired lease whose job may run again. -/
def ProcessingJob.expireRequeue (now : Instant) (j : ProcessingJob) : ProcessingJob :=
  { j with
    status := .pending
    lastError := some "lease expired; requeued"
    availableAt := now
    updatedAt := now
    lockedBy := none
    lockedAt := none
    leaseExpiresAt := none }

/-- An expiry leaves the id. -/
@[simp] theorem ProcessingJob.id_expireRequeue (now : Instant) (j : ProcessingJob) :
    (j.expireRequeue now).id = j.id := rfl

/-- The expired rows among `jobIds` that have spent their budget. -/
def Exhausted (now : Instant) (jobIds : List JobId) (j : ProcessingJob) : Prop :=
  j.id ∈ jobIds ∧ LeaseExpired now j ∧ j.maxAttempts ≤ j.spent

instance (now : Instant) (jobIds : List JobId) : DecidablePred (Exhausted now jobIds) :=
  fun _ => inferInstanceAs (Decidable (_ ∧ _ ∧ _))

/-- The expired rows among `jobIds` that may run again. -/
def Requeueable (now : Instant) (jobIds : List JobId) (j : ProcessingJob) : Prop :=
  j.id ∈ jobIds ∧ LeaseExpired now j ∧ j.spent < j.maxAttempts

instance (now : Instant) (jobIds : List JobId) : DecidablePred (Requeueable now jobIds) :=
  fun _ => inferInstanceAs (Decidable (_ ∧ _ ∧ _))

/-- The open attempt rows of the jobs just reclaimed. -/
def Reclaimed (jobs : Table ProcessingJob.id) (jobIds : List JobId) (a : JobAttempt) : Prop :=
  a.finishedAt = none ∧ ∃ j ∈ jobs.get a.jobId, j.id ∈ jobIds ∧ j.status ≠ .claimed

instance (jobs : Table ProcessingJob.id) (jobIds : List JobId) :
    DecidablePred (Reclaimed jobs jobIds) :=
  fun _ => inferInstanceAs (Decidable (_ ∧ ∃ _ ∈ _, _))

/-- The ids of up to `limit` rows whose lease has expired, in the order `scan` in which the database
meets the rows. A row that `scan` leaves out was locked by another transaction. -/
def expiredIds (db : Db) (now : Instant) (limit : ℕ) (scan : List JobId) : List JobId :=
  (scan.filter fun id => ∃ j ∈ db.jobs.get id, LeaseExpired now j).take limit

/-- Return jobs whose lease expired to a runnable state; returns how many. -/
def reclaimExpiredLeases (db : Db) (now : Instant) (limit : ℕ) (scan : List JobId) : ℕ × Db :=
  let jobIds := expiredIds db now limit scan
  if jobIds.isEmpty then (0, db)
  else
    let deadLettered := db.jobs.rowcount (Exhausted now jobIds)
    let jobs := db.jobs.update (Exhausted now jobIds) (ProcessingJob.expireLast now)
      (ProcessingJob.id_expireLast now)
    let requeued := jobs.rowcount (Requeueable now jobIds)
    let jobs := jobs.update (Requeueable now jobIds) (ProcessingJob.expireRequeue now)
      (ProcessingJob.id_expireRequeue now)
    let attempts := db.attempts.update (Reclaimed jobs jobIds) (JobAttempt.close .leaseExpired now)
      (JobAttempt.id_close .leaseExpired now)
    (deadLettered + requeued, { jobs := jobs, attempts := attempts })

/-- `SET` of a replay. -/
def ProcessingJob.replay (now : Instant) (j : ProcessingJob) : ProcessingJob :=
  { j with
    status := .pending
    attempts := 0
    deferrals := 0
    continuations := 0
    budgetOffset := 0
    availableAt := now
    updatedAt := now
    lastError := none
    lockedBy := none
    lockedAt := none
    leaseExpiresAt := none
    completedAt := none
    deadLetterNotifiedAt := none
    deadLetterNotifyAfter := none
    deadLetterAttempts := 0
    deadLetterCallbackError := none }

/-- A replay leaves the id. -/
@[simp] theorem ProcessingJob.id_replay (now : Instant) (j : ProcessingJob) :
    (j.replay now).id = j.id := rfl

/-- The row is the dead letter of `jobId`. -/
def DeadLettered (jobId : JobId) (j : ProcessingJob) : Prop := j.id = jobId ∧ j.status = .deadLetter

instance (jobId : JobId) : DecidablePred (DeadLettered jobId) :=
  fun _ => inferInstanceAs (Decidable (_ ∧ _))

/-- Requeue a dead-lettered job for a fresh run; returns whether there was one. -/
def replayDeadLetterJob (db : Db) (jobId : JobId) (now : Instant) : Bool × Db :=
  (db.jobs.rowcount (DeadLettered jobId) == 1,
    { db with
      jobs := db.jobs.update (DeadLettered jobId) (ProcessingJob.replay now)
        (ProcessingJob.id_replay now) })

end Jasil.Jobs
