import Jasil.Jobs.Calls
import Jasil.Jobs.Heartbeat
import Jasil.Leases.Custody
import Jasil.Transition.Reachability

/-! # The runner and its heartbeat
One worker process: the runner's thread, which claims batches and runs their jobs one at a time, and the
heartbeat's thread, which renews. They share a lease keeper with one lock, and the tables with every
other process.

* **`RenewPc`**, **`RunnerPc`**: where a thread stands, one constructor for each point between two
  steps;
* **`Worker.renewStep`**, **`Worker.runnerStep`**: the next step of `renew` and of `run_once`. A step is
  one section under the lock, one transaction, or one move between them; the lock is held across the
  round trip of a renewal, so that one is three steps;
* **`Worker.step`**: a step of either thread, or a call of any other process on the tables.

What a step reads from outside (the clocks, whether the database call raises, whether `stop` is set,
how the handler ends) is its argument. Database calls raise `Exception`s; a handler may raise any
`BaseException`. The log is for an onlooker: no step reads it. -/

namespace Jasil.Jobs

/-! ## What a run is given -/

/-- A detached snapshot of a claimed job. -/
structure ClaimedJob where
  id : JobId
  subscriberId : SubscriberId
  attempts : ℤ
  queue : String

/-- `_snapshot`. -/
def ProcessingJob.snapshot (j : ProcessingJob) : ClaimedJob :=
  ⟨j.id, j.subscriberId, j.attempts, j.queue⟩

/-- What a runner is built with. -/
structure RunnerConfig extends LeaseConfig where
  batchSize : ℕ
  backoffBaseSeconds : ℚ
  backoffMaxSeconds : ℚ
  deferMaxSeconds : ℚ := 86400
  maxDeferrals : ℤ := 100
  maxContinuations : ℤ := 10000
  queues : Option (List String) := none

/-- How the call of a handler ends. -/
inductive HandlerEnd
  | returned
  /-- `DeferJob`. An instant that is unusable is the name of the error it raises. -/
  | deferred (retryAt : Except String Instant) (reason : String)
  /-- `ContinueJob`. -/
  | continued (delaySeconds : ℚ) (reason : String)
  /-- An `Exception`, as `type: message`. -/
  | raised (error : String)
  /-- A `BaseException` that is no `Exception`: the worker is stopping. -/
  | stopped (error : String)
  /-- There was no handler to call. -/
  | missing

/-- What one step reads from outside. -/
structure Readings where
  /-- `clock.now()`. -/
  now : Instant := 0
  /-- `clock.monotonic()`. -/
  monotonic : ℚ := 0
  /-- The database call raises. -/
  fails : Bool := false
  /-- `stop.is_set()`. -/
  stop : Bool := false
  /-- The registry has a handler for the job's subscriber. -/
  registered : Bool := true
  ending : HandlerEnd := .returned
  durationMs : ℤ := 0
  jitter : ℚ := 0
  mint : JobId → AttemptId := id
  /-- `registry.queue_assignments()`. -/
  queueAssignments : List (SubscriberId × String) := []
  /-- `_legacy_routing`. -/
  defaultQueueSubscribers : List SubscriberId := []
  excludedDefaultQueueSubscribers : List SubscriberId := []

/-- The outcome write for a handler that ended this way: `_defer`, `_continue`, `_fail`, or the
completion. An id is spelt with quotes around it, as `repr` does when it needs no escapes. -/
def HandlerEnd.settle (cfg : RunnerConfig) (job : ClaimedJob) (r : Readings) : HandlerEnd → Settle
  | .returned => .complete
  | .deferred (.error error) _ =>
    fail s!"ValueError: DeferJob.retry_at is not a usable instant ({error})"
  | .deferred (.ok retryAt) reason =>
    let requested : ℚ := ((retryAt - r.now : ℤ) : ℚ) / 1000000
    let delay := deferSeconds requested cfg.deferMaxSeconds (some r.jitter)
    .defer reason (r.now + timedelta delay) cfg.maxDeferrals
  | .continued delaySeconds reason =>
    let delay := deferSeconds delaySeconds cfg.deferMaxSeconds none
    .continued reason (r.now + timedelta delay) cfg.maxContinuations
  | .raised error | .stopped error => fail error
  | .missing =>
    fail ("LookupError: no durable handler registered for subscriber_id '" ++ job.subscriberId ++ "'")
where
  fail (error : String) : Settle :=
    .fail error cfg.backoffBaseSeconds cfg.backoffMaxSeconds (some r.jitter)

/-- What fails the job when its handler has used up what it asks for. -/
def HandlerEnd.usedUp (cfg : RunnerConfig) : HandlerEnd → HandlerEnd
  | .deferred _ reason =>
    .raised s!"RuntimeError: deferred more than {cfg.maxDeferrals} times: {reason}"
  | .continued _ reason =>
    .raised s!"RuntimeError: continued more than {cfg.maxContinuations} times: {reason}"
  | ending => ending

/-! ## The threads -/

/-- The threads that take the keeper's lock. -/
inductive Thread
  | runner
  | heartbeat
  deriving DecidableEq

/-- Where a call of `renew` stands. -/
inductive RenewPc
  /-- Before the locked part of `_abandon_if_overdue`. -/
  | abandon
  /-- Before the write that closes the attempt of an abandoned job. -/
  | close (batch : ℕ) (jobId : JobId) (attempt : ℤ) (waiting : JobAttempts)
  /-- Before `_release` of the jobs that waited behind it. -/
  | release (batch : ℕ) (waiting : JobAttempts)
  /-- Before the lock is taken for the renewal. -/
  | lock
  /-- Before the round trip, with the lock. -/
  | roundTrip
  /-- After it, with the lock. -/
  | answered (ids : List JobId)
  | failed

/-- What a step of `renew` comes to. -/
inductive Renewal
  | going (pc : RenewPc)
  | returned (ids : List JobId)
  | raised

/-- How `_execute` ended. -/
inductive Execution
  | returned (lostClaim : Bool)
  | raised
  | stopped

/-- Where a call of `run_once` stands; `index` is that of the job in the batch. -/
inductive RunnerPc
  /-- In no call. -/
  | idle
  /-- Before `_backfill_legacy_queues`; `now` is that of the claim to come. -/
  | backfill (now : Instant)
  /-- Before the claim. -/
  | claim (now : Instant)
  /-- Before `hold`. -/
  | hold (snapshots : List ClaimedJob)
  /-- At the head of the loop. -/
  | turn (index : ℕ)
  /-- In the renewal of `_still_held`. -/
  | stillHeld (index : ℕ) (job : ClaimedJob) (pc : RenewPc)
  | drop (index : ℕ) (job : ClaimedJob)
  | begin (index : ℕ) (job : ClaimedJob)
  | markStarted (index : ℕ) (job : ClaimedJob) (lost : EventRef)
  /-- Before the handler is called. -/
  | execute (index : ℕ) (job : ClaimedJob) (lost : EventRef)
  /-- In the handler. -/
  | handle (index : ℕ) (job : ClaimedJob) (lost : EventRef)
  | finalize (index : ℕ) (job : ClaimedJob) (lost : EventRef) (ending : HandlerEnd)
  /-- Before the outcome write. -/
  | write (index : ℕ) (job : ClaimedJob) (lost : EventRef) (ending : HandlerEnd)
  | finish (index : ℕ) (job : ClaimedJob) (lost : EventRef) (execution : Execution)
  /-- After `finish` of a job that raised nothing. -/
  | ran (index : ℕ) (lost : EventRef) (lostClaim : Bool)
  /-- Before the locked part of `release_waiting`. -/
  | takeWaiting
  | release (batch : ℕ) (waiting : JobAttempts)
  | clear

/-- One worker process among others. -/
structure Worker where
  db : Db
  keeper : LeaseKeeper
  /-- Who holds the keeper's lock. -/
  lock : Option Thread
  /-- How many batches were held so far. -/
  batch : ℕ
  snapshots : List ClaimedJob
  legacyQueuesBackfilled : Bool
  queueCursor : Option String
  runner : RunnerPc
  /-- The call of `renew` that the heartbeat is in. -/
  heartbeat : Option RenewPc
  log : List (BatchEvent JobId ℤ)

namespace Worker

/-- A process that starts on the tables as they are. -/
def init (db : Db) (monotonic : ℚ) : Worker :=
  ⟨db, LeaseKeeper.init monotonic, none, 0, [], false, none, .idle, none, []⟩

/-- What happens to the batch is recorded. -/
def record (w : Worker) (e : BatchEvent JobId ℤ) : Worker := { w with log := w.log ++ [e] }

/-- `_release`: one transaction, unless there is nothing to release. A failure is logged and
forgotten. -/
def releaseJobs (cfg : RunnerConfig) (w : Worker) (r : Readings) (batch : ℕ)
    (waiting : JobAttempts) : Worker :=
  if waiting.isEmpty then w
  else
    let db :=
      if r.fails then w.db
      else (releaseLeases w.db waiting cfg.workerId r.now cfg.recordAttempts).2
    { w.record (.released batch waiting) with db := db }

/-- The next step of a thread's call of `renew`. -/
def renewStep (cfg : RunnerConfig) (thread : Thread) (w : Worker) (r : Readings) :
    RenewPc → Option (Renewal × Worker)
  | .abandon =>
    if w.lock.isSome then none
    else
      match w.keeper.abandonIfOverdue cfg.maxRuntimeSeconds r.monotonic with
      | (none, _) => some (.going .lock, w)
      | (some a, keeper) =>
        let w := { w with keeper := keeper }
        match a.attempt with
        | some attempt =>
          if cfg.recordAttempts then some (.going (.close w.batch a.jobId attempt a.waiting), w)
          else some (.going (.release w.batch a.waiting), w)
        | none => some (.going (.release w.batch a.waiting), w)
  | .close batch jobId attempt waiting =>
    let db :=
      if r.fails then w.db
      else (closeAttempts w.db [(jobId, attempt)] cfg.workerId .abandoned r.now).2
    some (.going (.release batch waiting), { w with db := db })
  | .release batch waiting => some (.going .lock, w.releaseJobs cfg r batch waiting)
  | .lock =>
    if w.lock.isSome then none
    else if w.keeper.held.isEmpty then some (.returned [], w)
    else some (.going .roundTrip, { w with lock := some thread })
  | .roundTrip =>
    -- what is held is what was copied: nobody else changes it under the lock
    if r.fails then some (.going .failed, w)
    else
      let (ids, db) := renewLeases w.db w.keeper.held cfg.workerId cfg.leaseSeconds r.now
      some (.going (.answered ids), { w.record (.renewed w.batch ids) with db := db })
  | .answered ids =>
    some (.returned ids, { w with keeper := w.keeper.renewed ids r.monotonic, lock := none })
  | .failed =>
    let keeper := w.keeper.fenceIfSilent cfg.leaseSeconds cfg.intervalSeconds r.monotonic
    some (.raised, { w with keeper := keeper, lock := none })

/-- A section of the runner under the lock. -/
def locked (w : Worker) (after : Worker) : Option Worker :=
  if w.lock.isSome then none else some after

/-- `_backfill_legacy_queues`: the pending jobs of the default queue are moved once, in one transaction. A
failure is retried on the next batch. -/
def backfill (w : Worker) (r : Readings) : Worker :=
  if w.legacyQueuesBackfilled ∨ r.fails then w
  else { w with
    db := (backfillLegacyQueues w.db r.queueAssignments).2
    legacyQueuesBackfilled := true }

/-- The claim a runner makes. -/
def claimRequest (cfg : RunnerConfig) (w : Worker) (r : Readings) : ClaimRequest where
  workerId := cfg.workerId
  limit := cfg.batchSize
  leaseSeconds := cfg.leaseSeconds
  now := r.now
  queues := cfg.queues
  queueCursor := w.queueCursor
  defaultQueueSubscribers := r.defaultQueueSubscribers
  excludedDefaultQueueSubscribers := r.excludedDefaultQueueSubscribers
  recordAttempts := cfg.recordAttempts

/-- `_cursor_for`: the rotation restarts after a name that is no queue's. -/
def cursorFor (queue : String) : Option String := (validateQueueName queue).toOption

/-- The outcome write of a job. The writes that report nothing found the claim no longer owned. -/
def writeOutcome (cfg : RunnerConfig) (w : Worker) (r : Readings) (index : ℕ) (job : ClaimedJob)
    (lost : EventRef) (ending : HandlerEnd) : Worker :=
  if r.fails then
    match ending with
    -- logged, and the `BaseException` goes on
    | .stopped _ => { w with runner := .finish index job lost .stopped }
    | _ => { w with runner := .finish index job lost .raised }
  else
    let (status, db) := (ending.settle cfg job r).run w.db ⟨job.id, cfg.workerId, job.attempts⟩
      { now := r.now, durationMs := some r.durationMs, recordAttempt := cfg.recordAttempts }
    let w := { w with db := db }
    match status, ending with
    | _, .stopped _ => { w with runner := .finish index job lost .stopped }
    | some .deferralsExhausted, _ | some .continuationsExhausted, _ =>
      { w with runner := .write index job lost (ending.usedUp cfg) }
    | status, _ => { w with runner := .finish index job lost (.returned status.isNone) }

/-- The next step of `run_once`. -/
def runnerStep (cfg : RunnerConfig) (w : Worker) (r : Readings) : Option Worker :=
  match w.runner with
  | .idle => some { w with runner := .backfill r.now }
  | .backfill now => some { w.backfill r with runner := .claim now }
  | .claim now =>
    if r.fails then some { w with runner := .idle }
    else
      match claimJobs w.db (w.claimRequest cfg { r with now := now }) r.mint with
      | .error _ => some { w with runner := .idle }
      | .ok (claimed, db) =>
        let w := { w with db := db }
        match claimed.getLast? with
        | none => some { w with runner := .idle }
        | some last =>
          some { w with
            queueCursor := cursorFor last.queue
            runner := .hold (claimed.map ProcessingJob.snapshot) }
  | .hold snapshots =>
    let jobAttempts := snapshots.map fun job => (job.id, job.attempts)
    w.locked { w.record (.claimed (w.batch + 1) jobAttempts) with
      keeper := w.keeper.hold jobAttempts r.monotonic
      batch := w.batch + 1
      snapshots := snapshots
      runner := .turn 0 }
  | .turn index =>
    match w.snapshots[index]? with
    | none => some { w with runner := .clear }
    | some job =>
      if r.stop then some { w with runner := .takeWaiting }
      else if index = 0 then some { w with runner := .begin index job }
      else some { w with runner := .stillHeld index job .abandon }
  | .stillHeld index job pc =>
    (w.renewStep cfg .runner r pc).map fun (renewal, w) =>
      match renewal with
      | .going pc => { w with runner := .stillHeld index job pc }
      | .returned ids =>
        if job.id ∈ ids then { w with runner := .begin index job }
        else { w with runner := .turn (index + 1) }
      | .raised => { w with runner := .drop index job }
  | .drop index job =>
    w.locked { w with keeper := w.keeper.drop job.id, runner := .turn (index + 1) }
  | .begin index job =>
    let (lost, keeper) := w.keeper.begin job.id r.monotonic
    w.locked { w with keeper := keeper, runner := .markStarted index job lost }
  | .markStarted index job lost =>
    let db :=
      if cfg.recordAttempts ∧ ¬ r.fails then
        markAttemptStarted w.db job.id cfg.workerId job.attempts r.now
      else w.db
    some { w with db := db, runner := .execute index job lost }
  | .execute index job lost =>
    if r.registered then
      some { w.record (.started w.batch job.id) with runner := .handle index job lost }
    else some { w with runner := .finalize index job lost .missing }
  | .handle index job lost => some { w with runner := .finalize index job lost r.ending }
  | .finalize index job lost ending =>
    w.locked { w with
      keeper := w.keeper.finalize job.id
      runner := .write index job lost ending }
  | .write index job lost ending => some (w.writeOutcome cfg r index job lost ending)
  | .finish index job lost execution =>
    let w' := { w.record (.ended w.batch job.id) with keeper := w.keeper.finish job.id }
    w.locked <| match execution with
      | .returned lostClaim => { w' with runner := .ran index lost lostClaim }
      | .raised => { w' with runner := .turn (index + 1) }
      | .stopped => { w' with runner := .takeWaiting }
  | .ran index lost lostClaim =>
    -- this worker is in trouble, so the rest of the batch goes back to the queue
    if lostClaim ∨ w.keeper.isSet lost then some { w with runner := .takeWaiting }
    else some { w with runner := .turn (index + 1) }
  | .takeWaiting =>
    let (waiting, keeper) := w.keeper.takeWaiting
    w.locked { w with keeper := keeper, runner := .release w.batch waiting }
  | .release batch waiting => some { w.releaseJobs cfg r batch waiting with runner := .clear }
  | .clear => w.locked { w with keeper := w.keeper.clear, runner := .idle }

/-- The next step of the heartbeat, which begins a call of `renew` after each that ends. -/
def heartbeatStep (cfg : RunnerConfig) (w : Worker) (r : Readings) : Option Worker :=
  match w.heartbeat with
  | none => some { w with heartbeat := some .abandon }
  | some pc =>
    (w.renewStep cfg .heartbeat r pc).map fun (renewal, w) =>
      match renewal with
      | .going pc => { w with heartbeat := some pc }
      | .returned _ | .raised => { w with heartbeat := none }

/-- Who acts next. -/
inductive Act
  | runner (r : Readings)
  | heartbeat (r : Readings)
  /-- A call that another process makes. -/
  | other (c : Call)

/-- A step of either thread, or a call of another process. -/
def step (cfg : RunnerConfig) (w : Worker) : Act → Option Worker
  | .runner r => w.runnerStep cfg r
  | .heartbeat r => w.heartbeatStep cfg r
  | .other c => some { w with db := c.run w.db }

end Worker

end Jasil.Jobs
