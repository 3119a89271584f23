import Mathlib.Logic.Function.Basic
import Jasil.Jobs.Calls

/-! # Sweeps for owed callbacks
A sweep claims one dead letter after the other, runs the callback of its subscriber and records how it went.
Sweeps run in any number of processes, and a callback may take as long as it likes. A claim selects a row and
then updates it with a compare-and-set, which may find another dead letter of the job: the job may have been
replayed in between.

* **`Sweep`**: one call of `deliver_dead_letters`, with its turn of the loop.
* **`Sweeping`**: the tables with the sweeps under way, and an onlooker's record of the claims.
* **`Sweeping.step`**: what can happen next. -/

namespace Jasil.Jobs

/-- `CLAIM_LEASE_SECONDS`. -/
def claimLeaseSeconds : ℚ := 300

/-- `RETRY_BASE_SECONDS`. -/
def retryBaseSeconds : ℕ := 60

/-- `RETRY_MAX_SECONDS`. -/
def retryMaxSeconds : ℕ := 3600

/-- `MAX_DELIVERIES`. -/
def maxDeliveries : ℤ := 10

/-- `SWEEP_WINDOW`, seven days. -/
def sweepWindow : ℤ := timedelta (7 * 24 * 3600)

/-- `_backoff`. -/
def deliveryBackoff (deliveryAttempt : ℤ) : ℕ :=
  min (retryBaseSeconds * 2 ^ (max 0 (deliveryAttempt - 1)).toNat) retryMaxSeconds

/-! ## One sweep -/

/-- Where a sweep stands in its loop. The number is that of its claim in the onlooker's record. -/
inductive Turn
  /-- It selects next. -/
  | ready
  /-- A row was selected at that instant, and its compare-and-set is next. -/
  | selected (now : Instant) (row : ProcessingJob)
  | claimed (number : ℕ) (job : DeadLetterJob)
  /-- The callback was unregistered before it ran. -/
  | unregistered (number : ℕ) (job : DeadLetterJob)
  | running (number : ℕ) (job : DeadLetterJob)
  | returned (number : ℕ) (job : DeadLetterJob)
  /-- The callback raised. -/
  | failed (number : ℕ) (job : DeadLetterJob) (error : String)

/-- The row that waits for its compare-and-set. -/
def Turn.picked : Turn → Option (Instant × ProcessingJob)
  | .selected now row => some (now, row)
  | _ => none

/-- The claim in hand. -/
def Turn.held : Turn → Option (ℕ × DeadLetterJob)
  | .ready | .selected .. => none
  | .claimed number job | .unregistered number job | .running number job | .returned number job
  | .failed number job _ => some (number, job)

/-- Its callback was started. -/
def Turn.started : Turn → Bool
  | .ready | .selected .. | .claimed .. | .unregistered .. => false
  | .running .. | .returned .. | .failed .. => true

/-- A call of `deliver_dead_letters`. -/
structure Sweep where
  /-- The subscribers whose callbacks it still looks for. -/
  subscribers : List SubscriberId
  jobIds : Option (List JobId)
  /-- The turns that are left, this one included. -/
  remaining : ℕ
  delivered : ℕ := 0
  turn : Turn := .ready

/-- What a turn asks for. -/
def Sweep.request (sweep : Sweep) (now : Instant) : CallbackRequest where
  subscriberIds := sweep.subscribers
  now := now
  leaseSeconds := claimLeaseSeconds
  jobIds := sweep.jobIds
  limit := 1
  maxDeliveries := some maxDeliveries
  deadAfter := if sweep.jobIds.isSome then none else some (now - sweepWindow)

/-- The next turn. -/
def Sweep.next (sweep : Sweep) : Sweep := { sweep with turn := .ready, remaining := sweep.remaining - 1 }

/-! ## All sweeps -/

/-- What an onlooker records of a claim. -/
structure CallbackClaim where
  number : ℕ
  jobId : JobId
  /-- The instant of the dead letter that the compare-and-set counted the delivery of. -/
  deadAt : Option Instant
  /-- The delivery count that the claim left, which its outcome is written with. -/
  ticket : ℤ
  /-- The instant that the sweep selected with, from which on the lease runs. -/
  askedAt : Instant
  /-- What the clock last showed to anyone before the compare-and-set. -/
  claimedAt : Instant
  /-- The callback was started. -/
  ran : Bool := false
  /-- The claim was undone. -/
  released : Bool := false

/-- Its callback is started. -/
def CallbackClaim.start (c : CallbackClaim) : CallbackClaim := { c with ran := true }

/-- It is undone. -/
def CallbackClaim.undo (c : CallbackClaim) : CallbackClaim := { c with released := true }

/-- A dead letter: the job, and the instant at which it became one. -/
abbrev Letter := JobId × Option Instant

/-- The dead letter that a row stands for. -/
def ProcessingJob.letter (j : ProcessingJob) : Letter := (j.id, j.completedAt)

/-- The dead letter that a sweep was handed. -/
def DeadLetterJob.letter (job : DeadLetterJob) : Letter := (job.id, job.deadAt)

/-- The tables, with the sweeps under way. -/
structure Sweeping where
  db : Db
  sweeps : ℕ → Option Sweep
  /-- The onlooker's record of every claim, oldest first. -/
  claims : List CallbackClaim
  /-- The dead letters that sweeps have come upon. -/
  seen : List Letter
  /-- What the clock last showed to a sweep that selected. -/
  clock : Instant

/-- What can happen next. -/
inductive SweepStep
  | begin (p : ℕ) (subscribers : List SubscriberId) (jobIds : Option (List JobId)) (limit : ℕ)
  /-- The sweep selects a row. -/
  | select (p : ℕ) (now : Instant)
  /-- The compare-and-set of that row. -/
  | claim (p : ℕ)
  /-- The sweep looks for the callback of the job that it claimed, and starts it if there is one. -/
  | lookUp (p : ℕ) (registered : Bool)
  /-- The callback returns, or raises. -/
  | finish (p : ℕ) (error : Option String)
  /-- The outcome is written. -/
  | record (p : ℕ) (now : Instant)
  /-- The outcome could not be written. -/
  | skip (p : ℕ)
  /-- The process dies. -/
  | die (p : ℕ)
  /-- Any call that is not about callbacks. -/
  | other (c : Call)

/-- The record with a change to the claim of a number. -/
def modifyClaim (claims : List CallbackClaim) (number : ℕ)
    (f : CallbackClaim → CallbackClaim) : List CallbackClaim :=
  claims.map fun c => if c.number = number then f c else c

namespace Sweeping

/-- No jobs and no sweeps, at some instant. -/
def init (clock : Instant) : Sweeping := ⟨Db.empty, fun _ => none, [], [], clock⟩

/-- The sweep `p` stands there. -/
def set (s : Sweeping) (p : ℕ) (sweep : Option Sweep) : Sweeping :=
  { s with sweeps := Function.update s.sweeps p sweep }

/-- A sweep is where it is set. -/
@[simp] theorem sweeps_set_self (s : Sweeping) (p : ℕ) (sweep : Option Sweep) :
    (s.set p sweep).sweeps p = sweep :=
  Function.update_self ..

/-- Others stay where they are. -/
@[simp] theorem sweeps_set_of_ne (s : Sweeping) {p q : ℕ} (hq : q ≠ p) (sweep : Option Sweep) :
    (s.set p sweep).sweeps q = s.sweeps q := Function.update_of_ne hq ..

/-- Take one step. -/
def step (s : Sweeping) : SweepStep → Option Sweeping
  | .begin p subscribers jobIds limit =>
    match s.sweeps p with
    | some _ => none
    | none =>
      if subscribers = [] ∨ jobIds = some [] then some s
      else some (s.set p (some { subscribers, jobIds, remaining := limit }))
  | .select p now =>
    match s.sweeps p with
    | some sweep =>
      match sweep.turn with
      | .ready =>
        if sweep.remaining = 0 ∨ sweep.subscribers = [] then some (s.set p none)
        else
          match callbackRows s.db (sweep.request now) with
          | [] => some { s.set p none with clock := now }
          | row :: _ =>
            some { s.set p (some { sweep with turn := .selected now row }) with
              clock := now, seen := row.letter :: s.seen }
      | _ => none
    | none => none
  | .claim p =>
    match s.sweeps p with
    | some sweep =>
      match sweep.turn with
      | .selected now row =>
        let counted := (s.db.jobs.get row.id).bind ProcessingJob.completedAt
        match claimCallbackRow (sweep.request now) row ([], s.db.jobs) with
        | ([], jobs) => some { s.set p none with db := { s.db with jobs } }
        | (job :: _, jobs) =>
          let claim : CallbackClaim :=
            ⟨s.claims.length, job.id, counted, job.deliveryAttempt, now, s.clock, false, false⟩
          some { s.set p (some { sweep with turn := .claimed s.claims.length job }) with
            db := { s.db with jobs }, claims := s.claims ++ [claim], seen := (job.id, counted) :: s.seen }
      | _ => none
    | none => none
  | .lookUp p registered =>
    match s.sweeps p with
    | some sweep =>
      match sweep.turn with
      | .claimed number job =>
        if registered then
          some { s.set p (some { sweep with turn := .running number job }) with
            claims := modifyClaim s.claims number CallbackClaim.start }
        else
          some (s.set p (some { sweep with
            turn := .unregistered number job, subscribers := sweep.subscribers.filter (· ≠ job.subscriberId) }))
      | _ => none
    | none => none
  | .finish p error =>
    match s.sweeps p with
    | some sweep =>
      match sweep.turn, error with
      | .running number job, none =>
        some (s.set p (some { sweep with turn := .returned number job, delivered := sweep.delivered + 1 }))
      | .running number job, some error => some (s.set p (some { sweep with turn := .failed number job error }))
      | _, _ => none
    | none => none
  | .record p now =>
    match s.sweeps p with
    | some sweep =>
      match sweep.turn with
      | .unregistered number job =>
        let (released, db) := releaseDeadLetterClaim s.db job
        some { s.set p (some sweep.next) with
          db, claims := if released then modifyClaim s.claims number CallbackClaim.undo else s.claims }
      | .returned _ job => some { s.set p (some sweep.next) with db := (markDeadLetterNotified s.db job now).2 }
      | .failed _ job error =>
        let retryAt := now + timedelta (deliveryBackoff job.deliveryAttempt)
        some { s.set p (some sweep.next) with db := (deferDeadLetterCallback s.db job retryAt error).2 }
      | _ => none
    | none => none
  | .skip p =>
    match s.sweeps p with
    | some sweep =>
      match sweep.turn with
      | .unregistered .. | .returned .. | .failed .. => some (s.set p (some sweep.next))
      | _ => none
    | none => none
  | .die p => some (s.set p none)
  | .other c => some { s with db := c.run s.db }

end Sweeping

/-- The call is not about callbacks. -/
def Call.Plain : Call → Prop
  | .claimCallbacks _ | .markNotified .. | .deferCallback .. | .releaseCallback _ => False
  | _ => True

namespace Sweeping

/-- **What is asked of a step**: the callbacks are claimed and recorded by sweeps, and a new dead letter has
another instant than those of its job that sweeps have come upon. -/
def DatedApart (s : Sweeping) : SweepStep → Prop
  | .other c => c.Plain ∧ ∀ j ∈ s.db.jobs.rows, ∀ j' ∈ (c.run s.db).jobs.get j.id, j.status ≠ .deadLetter →
      j'.status = .deadLetter → j'.letter ∉ s.seen
  | _ => True

/-- The clock does not go back. -/
def ClockForward (s : Sweeping) : SweepStep → Prop
  | .select _ now => s.clock ≤ now
  | _ => True

end Sweeping

end Jasil.Jobs
