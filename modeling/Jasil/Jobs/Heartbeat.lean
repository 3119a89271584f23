import Jasil.Jobs.Crud

/-! # What a worker holds
**`LeaseKeeper`** is a worker's record of the jobs it holds: the running job and the jobs of the batch
still waiting for their turn. Its methods change it under one lock, so each is one step here; the
renewal, which holds the lock across its database round trip and writes outside it besides, is taken
apart in the runner's model.

Elapsed time is read from a clock that only the process knows (`monotonic`), what goes into the
database from `now`. -/

namespace Jasil.Jobs

/-- A `threading.Event` of the process, by the order in which they were made. -/
abbrev EventRef := ℕ

/-- `_Running`: the job whose handler is executing right now. -/
structure Running where
  jobId : JobId
  started : ℚ
  lost : EventRef
  abandoned : Bool := false
  /-- The handler has returned and its outcome is being written. -/
  finalizing : Bool := false

/-- What a lease keeper is built with. -/
structure LeaseConfig where
  workerId : WorkerId
  leaseSeconds : ℤ
  maxRuntimeSeconds : ℚ
  intervalSeconds : ℚ
  recordAttempts : Bool := true

/-- `LeaseKeeper`: the claims that are held, the running job, the last renewal, and the events that were made.
-/
structure LeaseKeeper where
  held : JobAttempts
  running : Option Running
  lastRenewed : ℚ
  /-- The events made so far, and whether each is set. The handlers see theirs too. -/
  events : List Bool

/-- `held` after `pop(job_id, None)` of each of the ids. -/
def JobAttempts.without (held : JobAttempts) (ids : List JobId) : JobAttempts :=
  held.filter fun p => p.1 ∉ ids

namespace LeaseKeeper

/-- Nothing is held yet. -/
def init (monotonic : ℚ) : LeaseKeeper := ⟨[], none, monotonic, []⟩

/-- `event.is_set()`. -/
def isSet (k : LeaseKeeper) (event : EventRef) : Bool := k.events[event]?.getD false

/-- `event.set()`. -/
def set (k : LeaseKeeper) (event : EventRef) : LeaseKeeper :=
  { k with events := k.events.set event true }

/-! ## The batch and the running job -/

/-- Start tracking a freshly claimed batch. -/
def hold (k : LeaseKeeper) (jobAttempts : JobAttempts) (monotonic : ℚ) : LeaseKeeper :=
  { k with held := jobAttempts, running := none, lastRenewed := monotonic }

/-- Mark `jobId` as running; returns the event set if its lease is lost. -/
def begin (k : LeaseKeeper) (jobId : JobId) (monotonic : ℚ) : EventRef × LeaseKeeper :=
  let lost := k.events.length
  (lost, { k with
    events := k.events ++ [false]
    running := some { jobId := jobId, started := monotonic, lost := lost } })

/-- Mark `jobId`'s handler as done and its outcome as being written. -/
def finalize (k : LeaseKeeper) (jobId : JobId) : LeaseKeeper :=
  { k with
    running := k.running.map fun r => if r.jobId = jobId then { r with finalizing := true } else r }

/-- Stop tracking `jobId`: it completed, failed, or was abandoned. -/
def finish (k : LeaseKeeper) (jobId : JobId) : LeaseKeeper :=
  { k with
    running := k.running.filter fun r => r.jobId ≠ jobId
    held := k.held.without [jobId] }

/-- Stop renewing a job this worker will not run. -/
def drop (k : LeaseKeeper) (jobId : JobId) : LeaseKeeper :=
  { k with held := k.held.without [jobId] }

/-- Forget everything; the batch is over. -/
def clear (k : LeaseKeeper) : LeaseKeeper := { k with held := [], running := none }

/-- `_take_waiting`: stop tracking, and return, the held jobs that have not started. -/
def takeWaiting (k : LeaseKeeper) : JobAttempts × LeaseKeeper :=
  let runningId := k.running.map Running.jobId
  let waiting := k.held.filter fun p => some p.1 ≠ runningId
  (waiting, { k with held := k.held.without (waiting.map Prod.fst) })

/-! ## The parts of a renewal -/

/-- `_abandon`: mark the running job abandoned; returns the attempt it held, if any. -/
def abandon (k : LeaseKeeper) (running : Running) : Option ℤ × LeaseKeeper :=
  let attempt := k.held.lookup running.jobId
  (attempt, { k.set running.lost with
    running := some { running with abandoned := true }
    held := k.held.without [running.jobId] })

/-- What an abandonment leaves to be written once the lock is dropped. -/
structure Abandonment where
  jobId : JobId
  attempt : Option ℤ
  waiting : JobAttempts

/-- The locked part of `_abandon_if_overdue`. -/
def abandonIfOverdue (k : LeaseKeeper) (maxRuntimeSeconds monotonic : ℚ) :
    Option Abandonment × LeaseKeeper :=
  match k.running with
  | none => (none, k)
  | some running =>
    if running.abandoned ∨ running.finalizing ∨ monotonic - running.started < maxRuntimeSeconds then
      (none, k)
    else
      let (attempt, k) := k.abandon running
      -- the abandoned job is running still, so it is not among those
      let (waiting, k) := k.takeWaiting
      (some ⟨running.jobId, attempt, waiting⟩, k)

/-- `_fence_if_silent`: when renewals have failed for long enough, the running job's lease counts as
lost. -/
def fenceIfSilent (k : LeaseKeeper) (leaseSeconds : ℤ) (intervalSeconds monotonic : ℚ) :
    LeaseKeeper :=
  match k.running with
  | none => k
  | some running =>
    if running.finalizing ∨ k.isSet running.lost ∨
        monotonic - k.lastRenewed < leaseSeconds - intervalSeconds then k
    else k.set running.lost

/-- What `renew` does with the ids the database renewed. A running job that is missing has lost its
lease, unless its outcome is being written. -/
def renewed (k : LeaseKeeper) (ids : List JobId) (monotonic : ℚ) : LeaseKeeper :=
  let gone := (k.held.map Prod.fst).filter fun id => id ∉ ids
  let k := { k with lastRenewed := monotonic, held := k.held.without gone }
  match k.running with
  | none => k
  | some running =>
    if running.jobId ∈ gone ∧ ¬ running.finalizing then k.set running.lost else k

end LeaseKeeper

/-! ## What the methods do to the record -/

/-- What is left are the claims of other jobs. -/
theorem JobAttempts.mem_without {held : JobAttempts} {ids : List JobId} {p : JobId × ℤ} :
    p ∈ held.without ids ↔ p ∈ held ∧ p.1 ∉ ids := by
  rw [JobAttempts.without, List.mem_filter, decide_eq_true_iff]

/-- What is left was there, in its order. -/
theorem JobAttempts.without_sublist (held : JobAttempts) (ids : List JobId) :
    (held.without ids).Sublist held := List.filter_sublist

/-- Dropping the ids that a part of the record names leaves the other part. -/
theorem JobAttempts.without_filter {held : JobAttempts} (q : JobId → Bool) :
    held.without ((held.filter fun p => q p.1).map Prod.fst) = held.filter fun p => !q p.1 := by
  refine List.filter_congr fun p hp => ?_
  have hiff : p.1 ∈ (held.filter fun p => q p.1).map Prod.fst ↔ q p.1 = true := by
    rw [List.mem_map]
    constructor
    · rintro ⟨p', hp', he⟩
      rw [← he]
      exact (List.mem_filter.mp hp').2
    · exact fun hq => ⟨p, List.mem_filter.mpr ⟨hp, hq⟩, rfl⟩
  cases hq : q p.1 <;> simp [hiff, hq]

namespace LeaseKeeper

/-- The job that is running. -/
def runningId (k : LeaseKeeper) : Option JobId := k.running.map Running.jobId

/-- Setting an event leaves what is held. -/
@[simp] theorem held_set (k : LeaseKeeper) (event : EventRef) : (k.set event).held = k.held := rfl

/-- Setting an event leaves the running job. -/
@[simp] theorem runningId_set (k : LeaseKeeper) (event : EventRef) :
    (k.set event).runningId = k.runningId := rfl

/-- The job that begins is the running one. -/
@[simp] theorem runningId_begin (k : LeaseKeeper) (jobId : JobId) (monotonic : ℚ) :
    (k.begin jobId monotonic).2.runningId = some jobId := rfl

/-- A job that is being finalised is still the running one. -/
@[simp] theorem runningId_finalize (k : LeaseKeeper) (jobId : JobId) :
    (k.finalize jobId).runningId = k.runningId := by
  rw [runningId, runningId, finalize, Option.map_map]
  congr 1
  funext r
  show (if r.jobId = jobId then { r with finalizing := true } else r).jobId = r.jobId
  split <;> rfl

/-- Once the running job is finished no job is running. -/
theorem runningId_finish {k : LeaseKeeper} {jobId : JobId} (h : k.runningId = some jobId) :
    (k.finish jobId).runningId = none := by
  obtain ⟨r, hr, he⟩ := Option.map_eq_some_iff.mp h
  rw [runningId, finish, hr, Option.filter_some, if_neg (by simpa using he)]
  rfl

/-- **What waits and what is kept make up what was held**, and only the running job is kept. -/
theorem takeWaiting_perm (k : LeaseKeeper) :
    (k.takeWaiting.2.held ++ k.takeWaiting.1).Perm k.held := by
  have hsplit := List.filter_append_perm (fun p => decide (some p.1 ≠ k.runningId)) k.held
  refine List.Perm.trans ?_ hsplit
  refine List.perm_append_comm.trans (List.Perm.append_left _ (List.Perm.of_eq ?_))
  exact JobAttempts.without_filter fun id => decide (some id ≠ k.runningId)

/-- The running job does not wait. -/
theorem not_running_of_waiting {k : LeaseKeeper} {p : JobId × ℤ} (h : p ∈ k.takeWaiting.1) :
    k.runningId ≠ some p.1 := by
  have hp := (List.mem_filter.mp h).2
  exact fun he => of_decide_eq_true hp he.symm

/-- Taking what waits leaves the running job. -/
@[simp] theorem runningId_takeWaiting (k : LeaseKeeper) :
    k.takeWaiting.2.runningId = k.runningId := rfl

/-- An abandoned job is still the running one. -/
theorem runningId_abandon {k : LeaseKeeper} {running : Running} (h : k.running = some running) :
    (k.abandon running).2.runningId = k.runningId := by
  rw [runningId, runningId, h]
  rfl

/-- **An abandonment**: there is a running job; it is no longer held, and what waited is given up. -/
theorem abandonIfOverdue_some {k k' : LeaseKeeper} {maxRuntimeSeconds monotonic : ℚ}
    {a : Abandonment} (h : k.abandonIfOverdue maxRuntimeSeconds monotonic = (some a, k')) :
    k.runningId = some a.jobId ∧ k'.runningId = k.runningId ∧
      ∃ kept, kept.Sublist k.held ∧ (k'.held ++ a.waiting).Perm kept ∧
        ∀ p ∈ a.waiting, k.runningId ≠ some p.1 := by
  rw [abandonIfOverdue] at h
  cases hr : k.running with
  | none =>
    rw [hr] at h
    exact nomatch (Prod.mk.inj h).1
  | some running =>
    rw [hr] at h
    dsimp only at h
    split at h
    · exact nomatch (Prod.mk.inj h).1
    · obtain ⟨ha, rfl⟩ := Prod.mk.inj h
      obtain rfl := Option.some.inj ha
      have hid := runningId_abandon hr
      refine ⟨by rw [runningId, hr]; rfl, hid, (k.abandon running).2.held,
        JobAttempts.without_sublist _ _, takeWaiting_perm _, fun p hp => ?_⟩
      rw [← hid]
      exact not_running_of_waiting hp

/-- The fence leaves what is held and the running job. -/
theorem held_fenceIfSilent (k : LeaseKeeper) (leaseSeconds : ℤ) (intervalSeconds monotonic : ℚ) :
    (k.fenceIfSilent leaseSeconds intervalSeconds monotonic).held = k.held ∧
      (k.fenceIfSilent leaseSeconds intervalSeconds monotonic).runningId = k.runningId := by
  unfold fenceIfSilent
  split
  · exact ⟨rfl, rfl⟩
  · split <;> exact ⟨rfl, rfl⟩

/-- **After a renewal only what it named is held**, and the running job is the same. -/
theorem held_renewed (k : LeaseKeeper) (ids : List JobId) (monotonic : ℚ) :
    (k.renewed ids monotonic).held = k.held.filter (fun p => p.1 ∈ ids) ∧
      (k.renewed ids monotonic).runningId = k.runningId := by
  have hheld : k.held.without ((k.held.map Prod.fst).filter fun id => id ∉ ids) =
      k.held.filter fun p => p.1 ∈ ids := by
    have h := @JobAttempts.without_filter k.held fun id => decide (id ∉ ids)
    rw [List.filter_map]
    refine Eq.trans h (List.filter_congr fun p _ => ?_)
    rw [decide_not, Bool.not_not]
  unfold renewed
  dsimp only
  split
  · exact ⟨hheld, rfl⟩
  · split <;> exact ⟨hheld, rfl⟩

end LeaseKeeper

end Jasil.Jobs
