import Mathlib.Data.List.Sort
import Mathlib.Data.Prod.Lex
import Mathlib.Data.String.Basic
import Jasil.Jobs.Models

/-! # Attempt rows
The writes to `job_attempts`, each made in the transaction of the job state change it records.

* **`openAttempts`**: one open row for each job a worker just claimed;
* **`finishAttempt`**: close the row of one claim with the outcome of its handler;
* **`closeOpen`**: close the open rows of claims the worker will not finish.

A row is matched by job, worker and attempt number. A replay restarts the attempt numbers, so the
three do not identify a row, and `finishTarget` takes the newest that may still be settled. -/

namespace Jasil.Jobs

/-! ## Which claim a call is about -/

/-- `{job_id: attempt number of the claim}`. -/
abbrev JobAttempts := List (JobId × ℤ)

/-- `by_attempt.setdefault(attempt, []).append(job_id)`. -/
def appendUnder (attempt : ℤ) (jobId : JobId) : List (ℤ × List JobId) → List (ℤ × List JobId)
  | [] => [(attempt, [jobId])]
  | (a, ids) :: rest =>
    if a = attempt then (a, ids ++ [jobId]) :: rest else (a, ids) :: appendUnder attempt jobId rest

/-- `by_attempt`: the job ids under each distinct attempt number. -/
def byAttempt (jobAttempts : JobAttempts) : List (ℤ × List JobId) :=
  jobAttempts.foldl (fun groups p => appendUnder p.2 p.1 groups) []

/-- `_claims_match`: one of the `{job_id: attempt}` pairs, with one term per distinct attempt. -/
def ClaimsMatch (jobAttempts : JobAttempts) (jobId : JobId) (attempt : ℤ) : Prop :=
  ∃ group ∈ byAttempt jobAttempts, attempt = group.1 ∧ jobId ∈ group.2

instance (jobAttempts : JobAttempts) (jobId : JobId) (attempt : ℤ) :
    Decidable (ClaimsMatch jobAttempts jobId attempt) :=
  inferInstanceAs (Decidable (∃ group ∈ _, _))

/-- A job that is put under its number is there with those that were. -/
theorem exists_appendUnder {attempt a : ℤ} {jobId i : JobId} {groups : List (ℤ × List JobId)} :
    (∃ group ∈ appendUnder attempt jobId groups, a = group.1 ∧ i ∈ group.2) ↔
      (∃ group ∈ groups, a = group.1 ∧ i ∈ group.2) ∨ (a = attempt ∧ i = jobId) := by
  induction groups with
  | nil => simp [appendUnder]
  | cons g rest ih =>
    obtain ⟨b, ids⟩ := g
    rw [appendUnder]
    by_cases hb : b = attempt
    · rw [if_pos hb]
      simp only [List.mem_cons, exists_eq_or_imp, List.mem_append, List.not_mem_nil, or_false]
      grind
    · rw [if_neg hb]
      simp only [List.mem_cons, exists_eq_or_imp, ih]
      grind

/-- **Grouping by attempt loses no pair and adds none.** -/
theorem claimsMatch_iff {jobAttempts : JobAttempts} {jobId : JobId} {attempt : ℤ} :
    ClaimsMatch jobAttempts jobId attempt ↔ (jobId, attempt) ∈ jobAttempts := by
  have hfold : ∀ groups : List (ℤ × List JobId),
      (∃ group ∈ jobAttempts.foldl (fun groups p => appendUnder p.2 p.1 groups) groups,
        attempt = group.1 ∧ jobId ∈ group.2) ↔
      (∃ group ∈ groups, attempt = group.1 ∧ jobId ∈ group.2) ∨ (jobId, attempt) ∈ jobAttempts := by
    induction jobAttempts with
    | nil => simp
    | cons p rest ih =>
      intro groups
      obtain ⟨i, a⟩ := p
      rw [List.foldl_cons, ih, exists_appendUnder, List.mem_cons, Prod.mk.injEq, or_assoc,
        and_comm]
  simpa [ClaimsMatch, byAttempt] using hfold []

/-! ## Opening -/

/-- The rows among `jobIds` that `workerId` has a claim on. -/
def ClaimedBy (jobIds : List JobId) (workerId : WorkerId) (j : ProcessingJob) : Prop :=
  j.id ∈ jobIds ∧ j.status = .claimed ∧ j.lockedBy = some workerId

instance (jobIds : List JobId) (workerId : WorkerId) : DecidablePred (ClaimedBy jobIds workerId) :=
  fun _ => inferInstanceAs (Decidable (_ ∧ _ ∧ _))

/-- The attempt row opened for a job just claimed. -/
def openAttempt (workerId : WorkerId) (now : Instant) (mint : JobId → AttemptId)
    (j : ProcessingJob) : JobAttempt where
  id := mint j.id
  jobId := j.id
  eventId := j.eventId
  eventType := j.eventType
  subscriberId := j.subscriberId
  queue := j.queue
  attempt := j.attempts
  workerId := workerId
  claimedAt := now

/-- Open one attempt row for each job this worker just claimed; `mint` gives the fresh ids. -/
def openAttempts (db : Db) (jobIds : List JobId) (workerId : WorkerId) (now : Instant)
    (mint : JobId → AttemptId) : Db :=
  { db with
    attempts := db.attempts.insertAll
      ((db.jobs.select (ClaimedBy jobIds workerId)).map (openAttempt workerId now mint)) }

/-! ## Finishing -/

/-- The row was opened by a claim of `jobId` that `workerId` took with this number. -/
def AttemptOf (jobId : JobId) (workerId : WorkerId) (attempt : ℤ) (a : JobAttempt) : Prop :=
  a.jobId = jobId ∧ a.workerId = workerId ∧ a.attempt = attempt

instance (jobId : JobId) (workerId : WorkerId) (attempt : ℤ) :
    DecidablePred (AttemptOf jobId workerId attempt) :=
  fun _ => inferInstanceAs (Decidable (_ ∧ _ ∧ _))

/-- `settleable`: open or abandoned, and for a worker that finished late also closed by the reaper. -/
def Settleable (owned : Bool) (a : JobAttempt) : Prop :=
  (a.finishedAt = none ∨ a.outcome = some .abandoned) ∨
    (owned = false ∧ a.outcome = some .leaseExpired)

instance (owned : Bool) : DecidablePred (Settleable owned) :=
  fun _ => inferInstanceAs (Decidable (_ ∨ _))

/-- `ORDER BY claimed_at DESC, id DESC`. -/
def NewerThan (a b : JobAttempt) : Prop := toLex (b.claimedAt, b.id) ≤ toLex (a.claimedAt, a.id)

instance : DecidableRel NewerThan :=
  fun a b => inferInstanceAs (Decidable (toLex (b.claimedAt, b.id) ≤ toLex (a.claimedAt, a.id)))

/-- `target`: the newest settleable row of the claim. -/
def finishTarget (attempts : Table JobAttempt.id) (jobId : JobId) (workerId : WorkerId)
    (attempt : ℤ) (owned : Bool) : Option AttemptId :=
  ((attempts.select fun a => AttemptOf jobId workerId attempt a ∧ Settleable owned a).insertionSort
    NewerThan).head?.map JobAttempt.id

instance : Std.Total NewerThan := ⟨fun _ _ => le_total _ _⟩

instance : IsTrans JobAttempt NewerThan := ⟨fun _ _ _ h h' => le_trans h' h⟩

/-- What `target` finds is a settleable row of the claim. -/
theorem mem_finishTarget {attempts : Table JobAttempt.id} {jobId : JobId} {workerId : WorkerId}
    {attempt : ℤ} {owned : Bool} {target : AttemptId}
    (h : finishTarget attempts jobId workerId attempt owned = some target) :
    ∃ a, attempts.get target = some a ∧ AttemptOf jobId workerId attempt a ∧
      Settleable owned a := by
  obtain ⟨a, ha, rfl⟩ := Option.map_eq_some_iff.mp h
  have hm := (List.perm_insertionSort _ _).mem_iff.mp (List.mem_of_head? ha)
  obtain ⟨hrow, hof, hset⟩ := Table.mem_select.mp hm
  exact ⟨a, Table.get_key hrow, hof, hset⟩

/-- **A settleable row claimed after every other settleable one is the target.** -/
theorem finishTarget_eq_some {attempts : Table JobAttempt.id} {jobId : JobId}
    {workerId : WorkerId} {attempt : ℤ} {owned : Bool} {a : JobAttempt}
    (ha : a ∈ attempts.rows) (hof : AttemptOf jobId workerId attempt a) (hset : Settleable owned a)
    (hnewest : ∀ b ∈ attempts.rows, AttemptOf jobId workerId attempt b → b ≠ a →
      b.claimedAt < a.claimedAt) :
    finishTarget attempts jobId workerId attempt owned = some a.id := by
  set rows := attempts.select fun a => AttemptOf jobId workerId attempt a ∧ Settleable owned a
    with hrows
  have hmem : a ∈ rows.insertionSort NewerThan :=
    (List.perm_insertionSort _ _).mem_iff.mpr (Table.mem_select.mpr ⟨ha, hof, hset⟩)
  have hsorted := List.pairwise_insertionSort NewerThan rows
  rw [finishTarget, ← hrows]
  cases hl : rows.insertionSort NewerThan with
  | nil => simp [hl] at hmem
  | cons b rest =>
    rw [hl] at hmem hsorted
    rcases List.mem_cons.mp hmem with rfl | hrest
    · rfl
    · have hb : b ∈ rows := (List.perm_insertionSort NewerThan rows).mem_iff.mp (by simp [hl])
      obtain ⟨hbrow, hbof, -⟩ := Table.mem_select.mp hb
      have hnewer : NewerThan b a := (List.pairwise_cons.mp hsorted).1 a hrest
      by_cases hba : b = a
      · rw [hba]
        rfl
      · have hlt := hnewest b hbrow hbof hba
        rcases Prod.Lex.toLex_le_toLex.mp hnewer with h | ⟨h, -⟩
        · exact absurd hlt (lt_asymm h)
        · exact absurd h hlt.ne'

/-- Whether the job's counter has passed `attempt`. -/
def Overtaken (db : Db) (jobId : JobId) (attempt : ℤ) : Prop :=
  ∃ j ∈ db.jobs.get jobId, attempt < j.attempts

instance (db : Db) (jobId : JobId) (attempt : ℤ) : Decidable (Overtaken db jobId attempt) :=
  inferInstanceAs (Decidable (∃ j ∈ _, _))

/-- The outcome and the end `_finish_attempt` writes, the end computed from the row's own. -/
def finishValues (db : Db) (jobId : JobId) (attempt : ℤ) (now : Instant) (outcome : Outcome)
    (owned : Bool) : Outcome × (Option Instant → Instant) :=
  if owned then (outcome, fun _ => now)
  else if Overtaken db jobId attempt then (.superseded, fun _ => now)
  else (.leaseExpired, fun finishedAt => finishedAt.getD now)

/-- `SET` of `_finish_attempt`. -/
def JobAttempt.finish (a : JobAttempt) (outcome : Outcome) (finishedAt : Option Instant → Instant)
    (durationMs : Option ℤ) (error : Option String) : JobAttempt :=
  { a with
    outcome := some outcome
    finishedAt := some (finishedAt a.finishedAt)
    durationMs := durationMs
    error := error }

/-- Finishing an attempt leaves its id. -/
@[simp] theorem JobAttempt.id_finish (a : JobAttempt) (outcome : Outcome)
    (finishedAt : Option Instant → Instant) (durationMs : Option ℤ) (error : Option String) :
    (a.finish outcome finishedAt durationMs error).id = a.id := rfl

/-- Close the attempt row of one claim, in the caller's transaction. -/
def finishAttempt (db : Db) (jobId : JobId) (workerId : WorkerId) (attempt : ℤ) (now : Instant)
    (outcome : Outcome) (durationMs : Option ℤ) (error : Option String) (owned : Bool) : Db :=
  let values := finishValues db jobId attempt now outcome owned
  match finishTarget db.attempts jobId workerId attempt owned with
  | none => db
  | some target =>
    { db with
      attempts := db.attempts.update (·.id = target)
        (fun a => a.finish values.1 values.2 durationMs error)
        fun a => a.id_finish values.1 values.2 durationMs error }

/-! ## Closing -/

/-- The open rows of the given claims of `workerId`. -/
def OpenClaim (jobAttempts : JobAttempts) (workerId : WorkerId) (a : JobAttempt) : Prop :=
  ClaimsMatch jobAttempts a.jobId a.attempt ∧ a.workerId = workerId ∧ a.finishedAt = none

instance (jobAttempts : JobAttempts) (workerId : WorkerId) :
    DecidablePred (OpenClaim jobAttempts workerId) :=
  fun _ => inferInstanceAs (Decidable (_ ∧ _ ∧ _))

/-- `.values(outcome=…, finished_at=now)`. -/
def JobAttempt.close (outcome : Outcome) (now : Instant) (a : JobAttempt) : JobAttempt :=
  { a with outcome := some outcome, finishedAt := some now }

/-- Closing an attempt leaves its id. -/
@[simp] theorem JobAttempt.id_close (outcome : Outcome) (now : Instant) (a : JobAttempt) :
    (a.close outcome now).id = a.id := rfl

/-- Close the open rows of the given claims, in the caller's transaction; returns how many. -/
def closeOpen (db : Db) (jobAttempts : JobAttempts) (workerId : WorkerId) (outcome : Outcome)
    (now : Instant) : ℕ × Db :=
  if jobAttempts.isEmpty then (0, db)
  else
    (db.attempts.rowcount (OpenClaim jobAttempts workerId),
      { db with
        attempts := db.attempts.update (OpenClaim jobAttempts workerId)
          (JobAttempt.close outcome now) (JobAttempt.id_close outcome now) })

/-- Close the open attempt rows of claims this worker will not finish. -/
def closeAttempts (db : Db) (jobAttempts : JobAttempts) (workerId : WorkerId) (outcome : Outcome)
    (now : Instant) : ℕ × Db :=
  closeOpen db jobAttempts workerId outcome now

/-- `.values(started_at=now)`. -/
def JobAttempt.start (now : Instant) (a : JobAttempt) : JobAttempt :=
  { a with startedAt := some now }

/-- Starting an attempt leaves its id. -/
@[simp] theorem JobAttempt.id_start (now : Instant) (a : JobAttempt) : (a.start now).id = a.id := rfl

/-- Stamp the moment a claim's handler began. -/
def markAttemptStarted (db : Db) (jobId : JobId) (workerId : WorkerId) (attempt : ℤ)
    (now : Instant) : Db :=
  { db with
    attempts := db.attempts.update
      (fun a => AttemptOf jobId workerId attempt a ∧ a.finishedAt = none)
      (JobAttempt.start now) (JobAttempt.id_start now) }

end Jasil.Jobs
