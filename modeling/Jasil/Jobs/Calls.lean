import Jasil.Jobs.DeadLetters

/-! # What each call does to one row
The job operations as one alphabet, **`Call`**, and for each of them the lemma that says what becomes
of the row with a given primary key. Together they are `run_get`: a call inserts a new row, or takes
the row that is there through one **`RowStep`**. The proofs about runs go through `RowStep` and the
`get_*` lemmas, and unfold no operation. -/

namespace Jasil.Jobs

/-! ## The calls -/

/-- The settling calls of the runner. -/
inductive Settle
  | complete
  | fail (errorMessage : String) (baseSeconds maxSeconds : ℚ) (jitter : Option ℚ)
  | defer (reason : String) (retryAt : Instant) (maxDeferrals : ℤ)
  | continued (reason : String) (availableAt : Instant) (maxContinuations : ℤ)

/-- Make the settling call: what it reports, and the tables after. -/
def Settle.run (db : Db) (claim : ClaimGeneration) (args : SettleArgs) :
    Settle → Option SettleStatus × Db
  | .complete =>
    let (completed, db) := markJobCompleted db claim args
    (if completed then some .completed else none, db)
  | .fail errorMessage baseSeconds maxSeconds jitter =>
    markJobFailed db claim errorMessage baseSeconds maxSeconds jitter args
  | .defer reason retryAt maxDeferrals => markJobDeferred db claim reason retryAt maxDeferrals args
  | .continued reason availableAt maxContinuations =>
    markJobContinued db claim reason availableAt maxContinuations args

/-- The text a settling call stores. -/
def Settle.error : Settle → Option String
  | .complete => none
  | .fail text _ _ _ | .defer text _ _ | .continued text _ _ => storedError text

/-- The outcome a settling call names when it finds nothing to write. -/
def Settle.late : Settle → Outcome
  | .complete => .completed
  | .fail .. => .failed
  | .defer .. => .deferred
  | .continued .. => .continued

/-- What a settling call makes of the row of a claim it still owns. -/
def Settle.verdict (now : Instant) (state : ProcessingJob) : Settle → Verdict
  | .complete => .write .completed .completed ⟨ProcessingJob.complete now, ProcessingJob.id_complete now⟩
  | .fail text baseSeconds maxSeconds jitter =>
    failVerdict (storedError text) baseSeconds maxSeconds jitter now state
  | .defer text retryAt maxDeferrals =>
    deferVerdict (storedError text) retryAt maxDeferrals now state
  | .continued text availableAt maxContinuations =>
    continueVerdict (storedError text) availableAt maxContinuations now state

/-- One call of the job operations, one committed transaction. `claimSelected` is the part of
`claim_jobs` from its compare-and-set on, for ids that were selected earlier. -/
inductive Call
  | insert (event : Event) (subscriberId : SubscriberId) (queue : String) (maxAttempts : ℤ)
      (now : Instant) (availableAt : Option Instant) (jobId : JobId)
  | claim (r : ClaimRequest) (mint : JobId → AttemptId)
  | claimSelected (r : ClaimRequest) (jobIds : List JobId) (mint : JobId → AttemptId)
  | renew (jobAttempts : JobAttempts) (workerId : WorkerId) (leaseSeconds : ℤ) (now : Instant)
  | release (jobAttempts : JobAttempts) (workerId : WorkerId) (now : Instant)
      (recordAttempts : Bool)
  | settle (s : Settle) (claim : ClaimGeneration) (args : SettleArgs)
  | reclaim (now : Instant) (limit : ℕ) (scan : List JobId)
  | replay (jobId : JobId) (now : Instant)
  | close (jobAttempts : JobAttempts) (workerId : WorkerId) (outcome : Outcome) (now : Instant)
  | markStarted (claim : ClaimGeneration) (now : Instant)
  | claimCallbacks (r : CallbackRequest)
  | markNotified (claim : DeadLetterJob) (now : Instant)
  | deferCallback (claim : DeadLetterJob) (retryAt : Instant) (error : String)
  | releaseCallback (claim : DeadLetterJob)

/-- The tables after a call. A call that raises leaves them as they were. -/
def Call.run (db : Db) : Call → Db
  | .insert event subscriberId queue maxAttempts now availableAt jobId =>
    match insertJob db event subscriberId queue maxAttempts now availableAt jobId with
    | .ok (_, db') => db'
    | .error _ => db
  | .claim r mint =>
    match claimJobs db r mint with
    | .ok (_, db') => db'
    | .error _ => db
  | .claimSelected r jobIds mint => claimUpdate db r jobIds mint
  | .renew jobAttempts workerId leaseSeconds now =>
    (renewLeases db jobAttempts workerId leaseSeconds now).2
  | .release jobAttempts workerId now recordAttempts =>
    (releaseLeases db jobAttempts workerId now recordAttempts).2
  | .settle s gen args => (s.run db gen args).2
  | .reclaim now limit scan => (reclaimExpiredLeases db now limit scan).2
  | .replay jobId now => (replayDeadLetterJob db jobId now).2
  | .close jobAttempts workerId outcome now =>
    (closeAttempts db jobAttempts workerId outcome now).2
  | .markStarted gen now => markAttemptStarted db gen.jobId gen.workerId gen.attempt now
  | .claimCallbacks r => (claimDeadLetterCallbacks db r).2
  | .markNotified delivery now => (markDeadLetterNotified db delivery now).2
  | .deferCallback delivery retryAt error => (deferDeadLetterCallback db delivery retryAt error).2
  | .releaseCallback delivery => (releaseDeadLetterClaim db delivery).2

/-! ## The row writes -/

/-- What an expired lease makes of its row. -/
def ProcessingJob.expire (now : Instant) (j : ProcessingJob) : ProcessingJob :=
  if j.maxAttempts ≤ j.spent then j.expireLast now else j.expireRequeue now

/-- The row after a verdict. -/
def Verdict.apply : Verdict → ProcessingJob → ProcessingJob
  | .exhausted _, j => j
  | .write _ _ row, j => row.set j

/-- The report of a verdict. -/
def Verdict.status : Verdict → SettleStatus
  | .exhausted status => status
  | .write status _ _ => status

/-- What a settling call makes of a row it owns, case by case, with the guard of each. -/
inductive SettleStep (now : Instant) : Settle → ProcessingJob → ProcessingJob → Prop
  | complete {j : ProcessingJob} : SettleStep now .complete j (j.complete now)
  | failLast {text : String} {base ceiling : ℚ} {jitter : Option ℚ} {j : ProcessingJob} :
      j.maxAttempts ≤ j.spent →
        SettleStep now (.fail text base ceiling jitter) j (j.failLast (storedError text) now)
  | failRetry {text : String} {base ceiling : ℚ} {jitter : Option ℚ} {j : ProcessingJob} :
      j.spent < j.maxAttempts →
        SettleStep now (.fail text base ceiling jitter) j
          (j.failRetry (storedError text) now
            (now + timedelta (backoffSeconds j.spent base ceiling jitter)))
  | deferExhausted {text : String} {retryAt : Instant} {maxDeferrals : ℤ} {j : ProcessingJob} :
      maxDeferrals ≤ j.deferrals → SettleStep now (.defer text retryAt maxDeferrals) j j
  | defer {text : String} {retryAt : Instant} {maxDeferrals : ℤ} {j : ProcessingJob} :
      j.deferrals < maxDeferrals →
        SettleStep now (.defer text retryAt maxDeferrals) j
          (j.defer (storedError text) retryAt now)
  | continueExhausted {text : String} {availableAt : Instant} {maxContinuations : ℤ}
      {j : ProcessingJob} :
      maxContinuations ≤ j.continuations →
        SettleStep now (.continued text availableAt maxContinuations) j j
  | continued {text : String} {availableAt : Instant} {maxContinuations : ℤ} {j : ProcessingJob} :
      j.continuations < maxContinuations →
        SettleStep now (.continued text availableAt maxContinuations) j
          (j.continued (storedError text) availableAt now)

/-- A verdict is one of the steps. -/
theorem settleStep_apply (s : Settle) (now : Instant) (j : ProcessingJob) :
    SettleStep now s j ((s.verdict now j).apply j) := by
  cases s with
  | complete => exact .complete
  | fail text base ceiling jitter =>
    rw [Settle.verdict, failVerdict]
    split
    case isTrue h => exact .failLast h
    case isFalse h => exact .failRetry (lt_of_not_ge h)
  | defer text retryAt maxDeferrals =>
    rw [Settle.verdict, deferVerdict]
    split
    case isTrue h => exact .deferExhausted h
    case isFalse h => exact .defer (lt_of_not_ge h)
  | continued text availableAt maxContinuations =>
    rw [Settle.verdict, continueVerdict]
    split
    case isTrue h => exact .continueExhausted h
    case isFalse h => exact .continued (lt_of_not_ge h)

/-- **What a call may do to a row that is there**: nothing, or one guarded write. -/
inductive RowStep : Call → ProcessingJob → ProcessingJob → Prop
  | keep {c : Call} {j : ProcessingJob} : RowStep c j j
  | claim {r : ClaimRequest} {mint : JobId → AttemptId} {j : ProcessingJob} :
      j.status = .pending → RowStep (.claim r mint) j (j.claim r)
  | claimSelected {r : ClaimRequest} {jobIds : List JobId} {mint : JobId → AttemptId}
      {j : ProcessingJob} :
      Takes jobIds j → RowStep (.claimSelected r jobIds mint) j (j.claim r)
  | renew {jobAttempts : JobAttempts} {workerId : WorkerId} {leaseSeconds : ℤ} {now : Instant}
      {j : ProcessingJob} :
      HeldClaim jobAttempts workerId j →
        RowStep (.renew jobAttempts workerId leaseSeconds now) j (j.renew leaseSeconds now)
  | release {jobAttempts : JobAttempts} {workerId : WorkerId} {now : Instant}
      {recordAttempts : Bool} {j : ProcessingJob} :
      HeldClaim jobAttempts workerId j →
        RowStep (.release jobAttempts workerId now recordAttempts) j (j.release now)
  | settle {s : Settle} {claim : ClaimGeneration} {args : SettleArgs} {j j' : ProcessingJob} :
      OwnedClaim claim j → SettleStep args.now s j j' → RowStep (.settle s claim args) j j'
  | expireLast {now : Instant} {limit : ℕ} {scan : List JobId} {j : ProcessingJob} :
      LeaseExpired now j → j.maxAttempts ≤ j.spent →
        RowStep (.reclaim now limit scan) j (j.expireLast now)
  | expireRequeue {now : Instant} {limit : ℕ} {scan : List JobId} {j : ProcessingJob} :
      LeaseExpired now j → j.spent < j.maxAttempts →
        RowStep (.reclaim now limit scan) j (j.expireRequeue now)
  | replay {now : Instant} {j : ProcessingJob} :
      j.status = .deadLetter → RowStep (.replay j.id now) j (j.replay now)
  | claimCallback {r : CallbackRequest} {j : ProcessingJob} :
      r.Selects j → RowStep (.claimCallbacks r) j
        (j.claimCallback (r.now + timedelta r.leaseSeconds) (j.deadLetterAttempts + 1))
  | notified {claim : DeadLetterJob} {now : Instant} {j : ProcessingJob} :
      LiveDelivery claim j → RowStep (.markNotified claim now) j (j.notified now)
  | deferCallback {claim : DeadLetterJob} {retryAt : Instant} {error : String}
      {j : ProcessingJob} :
      LiveDelivery claim j → RowStep (.deferCallback claim retryAt error) j
        (j.deferCallback retryAt (storedError error))
  | releaseCallback {claim : DeadLetterJob} {j : ProcessingJob} :
      LiveDelivery claim j →
        RowStep (.releaseCallback claim) j (j.releaseCallback claim.deliveryAttempt)

/-! ## The attempt-row writes leave the jobs alone -/

/-- Finishing an attempt changes no job. -/
@[simp] theorem jobs_finishAttempt (db : Db) (jobId : JobId) (workerId : WorkerId) (attempt : ℤ)
    (now : Instant) (outcome : Outcome) (durationMs : Option ℤ) (error : Option String)
    (owned : Bool) :
    (finishAttempt db jobId workerId attempt now outcome durationMs error owned).jobs = db.jobs := by
  rw [finishAttempt]
  split <;> rfl

/-- Closing attempts changes no job. -/
@[simp] theorem jobs_closeOpen (db : Db) (jobAttempts : JobAttempts) (workerId : WorkerId)
    (outcome : Outcome) (now : Instant) :
    (closeOpen db jobAttempts workerId outcome now).2.jobs = db.jobs := by
  rw [closeOpen]
  split <;> rfl

/-! ## Ownership -/

/-- The row of the claim is still under it. -/
def Owned (db : Db) (claim : ClaimGeneration) : Prop :=
  ∃ j ∈ db.jobs.get claim.jobId, OwnedClaim claim j

instance (db : Db) (claim : ClaimGeneration) : Decidable (Owned db claim) :=
  inferInstanceAs (Decidable (∃ _ ∈ _, _))

/-- A claim is owned exactly when a row is under it. -/
theorem owned_iff {db : Db} {claim : ClaimGeneration} :
    Owned db claim ↔ ∃ j ∈ db.jobs.rows, OwnedClaim claim j := by
  constructor
  · rintro ⟨j, hj, ho⟩
    exact ⟨j, Table.mem_of_get hj, ho⟩
  · rintro ⟨j, hj, ho⟩
    exact ⟨j, ho.1 ▸ Table.get_key hj, ho⟩

/-- A held claim is one of the pairs named, owned by the worker. -/
theorem heldClaim_iff {jobAttempts : JobAttempts} {workerId : WorkerId} {j : ProcessingJob} :
    HeldClaim jobAttempts workerId j ↔
      ∃ attempt, (j.id, attempt) ∈ jobAttempts ∧ OwnedClaim ⟨j.id, workerId, attempt⟩ j := by
  rw [HeldClaim, claimsMatch_iff]
  constructor
  · rintro ⟨hm, hs, hl⟩
    exact ⟨j.attempts, hm, rfl, hs, hl, rfl⟩
  · rintro ⟨attempt, hm, -, hs, hl, rfl⟩
    exact ⟨hm, hs, hl⟩

/-- Nothing is held where no claims are given. -/
theorem not_heldClaim_nil (workerId : WorkerId) (j : ProcessingJob) : ¬ HeldClaim [] workerId j := by
  rw [heldClaim_iff]
  simp

/-! ## Row by row -/

/-- The row of an id after a claim's compare-and-set. -/
theorem get_claimUpdate (db : Db) (r : ClaimRequest) (jobIds : List JobId)
    (mint : JobId → AttemptId) (id : JobId) :
    (claimUpdate db r jobIds mint).jobs.get id =
      (db.jobs.get id).map fun j => if Takes jobIds j then j.claim r else j := by
  rw [claimUpdate]
  split <;> simp only [openAttempts, Table.get_update]

/-- The row of an id after a renewal. -/
theorem get_renewLeases (db : Db) (jobAttempts : JobAttempts) (workerId : WorkerId)
    (leaseSeconds : ℤ) (now : Instant) (id : JobId) :
    (renewLeases db jobAttempts workerId leaseSeconds now).2.jobs.get id =
      (db.jobs.get id).map fun j =>
        if HeldClaim jobAttempts workerId j then j.renew leaseSeconds now else j := by
  rw [renewLeases]
  split
  case isTrue h =>
    obtain rfl := List.isEmpty_iff.mp h
    simp [not_heldClaim_nil]
  case isFalse => simp only [Table.get_update]

/-- The row of an id after a release. -/
theorem get_releaseLeases (db : Db) (jobAttempts : JobAttempts) (workerId : WorkerId)
    (now : Instant) (recordAttempts : Bool) (id : JobId) :
    (releaseLeases db jobAttempts workerId now recordAttempts).2.jobs.get id =
      (db.jobs.get id).map fun j =>
        if HeldClaim jobAttempts workerId j then j.release now else j := by
  rw [releaseLeases]
  split
  case isTrue h =>
    obtain rfl := List.isEmpty_iff.mp h
    simp [not_heldClaim_nil]
  case isFalse =>
    dsimp only
    split
    · rw [jobs_closeOpen, Table.get_update]
    · rw [Table.get_update]

/-- A settling call that finds nothing to write leaves the jobs alone. -/
theorem jobs_settleClaim_none (db : Db) (claim : ClaimGeneration) (args : SettleArgs)
    (error : Option String) (outcome : Outcome) :
    (settleClaim db claim args error outcome none).2.jobs = db.jobs := by
  rw [settleClaim]
  dsimp only
  split
  · rw [jobs_finishAttempt]
  · rfl

/-- The jobs after a settling call that writes. -/
theorem jobs_settleClaim_some (db : Db) (claim : ClaimGeneration) (args : SettleArgs)
    (error : Option String) (outcome : Outcome) (row : RowWrite) :
    (settleClaim db claim args error outcome (some row)).2.jobs =
      db.jobs.update (OwnedClaim claim) row.set row.keepsId := by
  rw [settleClaim]
  dsimp only
  split
  · rw [jobs_finishAttempt]
  · rfl

/-- Whether a settling call writes is whether the claim is owned. -/
theorem settleClaim_fst (db : Db) (claim : ClaimGeneration) (args : SettleArgs)
    (error : Option String) (outcome : Outcome) (row : RowWrite) :
    (settleClaim db claim args error outcome (some row)).1 = decide (Owned db claim) := by
  have h : db.jobs.rowcount (OwnedClaim claim) = 1 ↔ Owned db claim :=
    Table.rowcount_eq_one_iff fun _ ho => ho.1
  simp only [settleClaim, beq_eq_decide, h]

/-- Writing a row under a claim that is not owned is writing no row. -/
theorem settleClaim_of_not_owned {db : Db} {claim : ClaimGeneration} (h : ¬ Owned db claim)
    (args : SettleArgs) (error : Option String) (outcome : Outcome) (row : RowWrite) :
    settleClaim db claim args error outcome (some row) =
      settleClaim db claim args error outcome none := by
  have hno : ∀ j ∈ db.jobs.rows, ¬ OwnedClaim claim j := fun j hj ho =>
    h (owned_iff.mpr ⟨j, hj, ho⟩)
  have hcount : (db.jobs.rowcount (OwnedClaim claim) == 1) = false := by
    have h0 : db.jobs.rowcount (OwnedClaim claim) = 0 := by
      simpa [Table.rowcount, List.countP_eq_zero] using hno
    simp [h0]
  simp only [settleClaim, hcount, Table.update_of_no_match hno]

/-- What `settleRead` finds when it looks for the row of the claim. -/
theorem head?_owned (db : Db) (claim : ClaimGeneration) :
    (db.jobs.select (OwnedClaim claim)).head? =
      (db.jobs.get claim.jobId).filter (OwnedClaim claim ·) :=
  Table.head?_select fun _ ho => ho.1

/-- **A settling call on a claim that is still owned** does what its verdict says. -/
theorem Settle.run_of_owned (s : Settle) {db : Db} {claim : ClaimGeneration} (args : SettleArgs)
    {j : ProcessingJob} (hj : db.jobs.get claim.jobId = some j) (ho : OwnedClaim claim j) :
    s.run db claim args =
      match s.verdict args.now j with
      | .exhausted status => (some status, db)
      | .write status outcome row =>
        (some status, (settleClaim db claim args s.error outcome (some row)).2) := by
  have howned : Owned db claim := ⟨j, hj, ho⟩
  have hread : (db.jobs.select (OwnedClaim claim)).head? = some j := by
    rw [head?_owned, hj]
    simp [Option.filter_some, ho]
  have hsettle (error : Option String) (late : Outcome) (verdict : ProcessingJob → Verdict) :
      settleRead db claim args error late verdict =
        match verdict j with
        | .exhausted status => (some status, db)
        | .write status outcome row =>
          (some status, (settleClaim db claim args error outcome (some row)).2) := by
    simp only [settleRead, hread]
    cases verdict j with
    | exhausted status => rfl
    | write status outcome row => simp [settleClaim_fst, howned]
  cases s with
  | complete =>
    simp [Settle.run, markJobCompleted, settleClaim_fst, howned, Settle.verdict, Settle.error]
  | fail text baseSeconds maxSeconds jitter => exact hsettle _ _ _
  | defer text retryAt maxDeferrals => exact hsettle _ _ _
  | continued text availableAt maxContinuations => exact hsettle _ _ _

/-- **A settling call on a claim that is no longer owned** reports it and writes no job. -/
theorem Settle.run_of_not_owned (s : Settle) {db : Db} {claim : ClaimGeneration}
    (args : SettleArgs) (h : ¬ Owned db claim) :
    s.run db claim args = (none, (settleClaim db claim args s.error s.late none).2) := by
  have hread : (db.jobs.select (OwnedClaim claim)).head? = none := by
    rw [head?_owned, Option.filter_eq_none_iff]
    intro j hj
    simpa using fun ho => h ⟨j, hj, ho⟩
  have hsettle (error : Option String) (late : Outcome) (verdict : ProcessingJob → Verdict) :
      settleRead db claim args error late verdict =
        (none, (settleClaim db claim args error late none).2) := by
    simp only [settleRead, hread]
  cases s with
  | complete =>
    have hfst : (settleClaim db claim args none .completed none).1 = false := rfl
    simp [Settle.run, markJobCompleted, settleClaim_of_not_owned h, hfst, Settle.error, Settle.late]
  | fail text baseSeconds maxSeconds jitter => exact hsettle _ _ _
  | defer text retryAt maxDeferrals => exact hsettle _ _ _
  | continued text availableAt maxContinuations => exact hsettle _ _ _

/-- The row of an id after a settling call. -/
theorem get_settle (s : Settle) (db : Db) (claim : ClaimGeneration) (args : SettleArgs)
    (id : JobId) :
    (s.run db claim args).2.jobs.get id =
      (db.jobs.get id).map fun j =>
        if OwnedClaim claim j then (s.verdict args.now j).apply j else j := by
  by_cases h : Owned db claim
  · obtain ⟨j, hj, ho⟩ := h
    rw [s.run_of_owned args hj ho]
    -- the claim names one row
    have hsame : ∀ j', db.jobs.get id = some j' → OwnedClaim claim j' → j' = j := by
      intro j' hj' ho'
      have hid : claim.jobId = id := ho'.1.symm.trans (Table.key_of_get hj')
      rw [hid, hj'] at hj
      exact Option.some.inj hj
    cases hv : s.verdict args.now j with
    | exhausted status =>
      cases hj' : db.jobs.get id with
      | none => simp
      | some j' =>
        by_cases ho' : OwnedClaim claim j'
        · simp [hsame j' hj' ho', hv, Verdict.apply]
        · simp [ho']
    | write status outcome row =>
      dsimp only
      rw [jobs_settleClaim_some, Table.get_update]
      cases hj' : db.jobs.get id with
      | none => rfl
      | some j' =>
        by_cases ho' : OwnedClaim claim j'
        · simp [hsame j' hj' ho', hv, Verdict.apply]
        · simp [ho']
  · rw [s.run_of_not_owned args h, jobs_settleClaim_none]
    cases hj : db.jobs.get id with
    | none => rfl
    | some j =>
      have ho : ¬ OwnedClaim claim j := fun ho =>
        h (owned_iff.mpr ⟨j, Table.mem_of_get hj, ho⟩)
      simp [ho]

/-- The row of an id after a pass of the reaper. -/
theorem get_reclaim (db : Db) (now : Instant) (limit : ℕ) (scan : List JobId) (id : JobId) :
    (reclaimExpiredLeases db now limit scan).2.jobs.get id =
      (db.jobs.get id).map fun j =>
        if j.id ∈ expiredIds db now limit scan ∧ LeaseExpired now j then j.expire now else j := by
  rw [reclaimExpiredLeases]
  split
  case isTrue h =>
    have hnil := List.isEmpty_iff.mp h
    simp [hnil]
  case isFalse =>
    simp only [Table.get_update, Option.map_map]
    congr 1
    funext j
    simp only [Function.comp_apply]
    by_cases hexp : j.id ∈ expiredIds db now limit scan ∧ LeaseExpired now j
    · rw [if_pos hexp, ProcessingJob.expire]
      by_cases hspent : j.maxAttempts ≤ j.spent
      · have hnot : ¬ Requeueable now (expiredIds db now limit scan) (j.expireLast now) :=
          fun h => by cases h.2.1.1
        have hyes : Exhausted now (expiredIds db now limit scan) j := ⟨hexp.1, hexp.2, hspent⟩
        rw [if_pos hyes, if_neg hnot, if_pos hspent]
      · have hyes : Requeueable now (expiredIds db now limit scan) j :=
          ⟨hexp.1, hexp.2, lt_of_not_ge hspent⟩
        rw [if_neg (fun h : Exhausted _ _ _ => hspent h.2.2), if_pos hyes, if_neg hspent]
    · rw [if_neg hexp, if_neg (fun h : Exhausted _ _ _ => hexp ⟨h.1, h.2.1⟩),
        if_neg (fun h : Requeueable _ _ _ => hexp ⟨h.1, h.2.1⟩)]

/-- The row of an id after a replay. -/
theorem get_replay (db : Db) (jobId : JobId) (now : Instant) (id : JobId) :
    (replayDeadLetterJob db jobId now).2.jobs.get id =
      (db.jobs.get id).map fun j => if DeadLettered jobId j then j.replay now else j := by
  rw [replayDeadLetterJob, Table.get_update]

/-- The row of an id after a write to a dead letter. -/
theorem get_updateDeadLetter (db : Db) (claim : DeadLetterJob) (row : RowWrite) (id : JobId) :
    (updateDeadLetter db claim row).2.jobs.get id =
      (db.jobs.get id).map fun j => if LiveDelivery claim j then row.set j else j := by
  rw [updateDeadLetter, Table.get_update]

/-! ## Claiming callbacks -/

/-- The row after a callback claim of the request. -/
def CallbackRequest.claimRow (r : CallbackRequest) (j : ProcessingJob) : ProcessingJob :=
  j.claimCallback (r.now + timedelta r.leaseSeconds) (j.deadLetterAttempts + 1)

/-- Claiming the callbacks of rows that are in the table and due wins every one of them, and touches
no other row. -/
theorem foldl_claimCallbackRow (r : CallbackRequest) {rows : List ProcessingJob}
    {jobs : List DeadLetterJob} {table : Table ProcessingJob.id}
    (hmem : ∀ row ∈ rows, table.get row.id = some row ∧ CallbackDue r.now row)
    (hnd : (rows.map ProcessingJob.id).Nodup) :
    (rows.foldl (fun acc row => claimCallbackRow r row acc) (jobs, table)).1 =
        jobs ++ rows.map claimedCallback ∧
      ∀ id, (rows.foldl (fun acc row => claimCallbackRow r row acc) (jobs, table)).2.get id =
        (table.get id).map fun j => if j.id ∈ rows.map ProcessingJob.id then r.claimRow j else j := by
  induction rows generalizing jobs table with
  | nil => simp
  | cons row rest ih =>
    obtain ⟨hrow, hdue⟩ := hmem row (List.mem_cons_self ..)
    rw [List.map_cons, List.nodup_cons] at hnd
    -- the compare-and-set matches the selected row and no other
    have hclaimable : ∀ j ∈ table.rows, CallbackClaimable row r.now j ↔ j.id = row.id := by
      intro j hj
      refine ⟨fun h => h.1, fun hid => ?_⟩
      obtain rfl := Table.eq_of_key_eq hj (Table.mem_of_get hrow) hid
      exact ⟨rfl, rfl, hdue⟩
    have hcount : table.rowcount (CallbackClaimable row r.now) = 1 :=
      (Table.rowcount_eq_one_iff fun _ h => h.1).mpr ⟨row, hrow, rfl, rfl, hdue⟩
    have hget : ∀ id, (claimCallbackRow r row (jobs, table)).2.get id =
        (table.get id).map fun j => if j.id = row.id then r.claimRow row else j := by
      intro id
      rw [claimCallbackRow, Table.get_update]
      cases hj : table.get id with
      | none => rfl
      | some j =>
        have hjm := Table.mem_of_get hj
        by_cases hid : j.id = row.id
        · obtain rfl := Table.eq_of_key_eq hjm (Table.mem_of_get hrow) hid
          simp [(hclaimable j hjm).mpr rfl, CallbackRequest.claimRow]
        · simp [hid, mt (hclaimable j hjm).mp hid]
    have hfst : (claimCallbackRow r row (jobs, table)).1 = jobs ++ [claimedCallback row] := by
      simp only [claimCallbackRow, if_pos hcount]
    have hmem' : ∀ row' ∈ rest, (claimCallbackRow r row (jobs, table)).2.get row'.id = some row' ∧
        CallbackDue r.now row' := by
      intro row' hr'
      obtain ⟨hg, hd⟩ := hmem row' (List.mem_cons_of_mem _ hr')
      have hne : row'.id ≠ row.id := fun he => hnd.1 (he ▸ List.mem_map_of_mem hr')
      refine ⟨?_, hd⟩
      rw [hget, hg]
      simp [hne]
    obtain ⟨ih1, ih2⟩ := @ih (claimCallbackRow r row (jobs, table)).1 _ hmem' hnd.2
    refine ⟨?_, fun id => ?_⟩
    · rw [List.foldl_cons, ih1, hfst]
      simp
    · rw [List.foldl_cons, ih2, hget, Option.map_map]
      cases hj : table.get id with
      | none => rfl
      | some j =>
        have hidr : (r.claimRow row).id = row.id := rfl
        by_cases hid : j.id = row.id
        · obtain rfl := Table.eq_of_key_eq (Table.mem_of_get hj) (Table.mem_of_get hrow) hid
          simp only [Option.map_some, Function.comp_apply, List.map_cons, List.mem_cons, true_or,
            if_true, hidr, if_neg hnd.1]
        · simp [hid]

/-- A row that was selected for its callback is in the table, and was selected. -/
theorem mem_callbackRows {db : Db} {r : CallbackRequest} {row : ProcessingJob}
    (h : row ∈ callbackRows db r) : db.jobs.get row.id = some row ∧ r.Selects row := by
  have hsel : row ∈ db.jobs.select r.Selects :=
    (List.perm_insertionSort _ _).mem_iff.mp (List.mem_of_mem_take h)
  obtain ⟨hrow, hs⟩ := Table.mem_select.mp hsel
  exact ⟨Table.get_key hrow, hs⟩

/-- Each job is selected once. -/
theorem nodup_callbackRows (db : Db) (r : CallbackRequest) :
    ((callbackRows db r).map ProcessingJob.id).Nodup := by
  have hsel : ((db.jobs.select r.Selects).map ProcessingJob.id).Nodup :=
    db.jobs.nodup.sublist ((List.filter_sublist).map _)
  have hsorted := ((List.perm_insertionSort (fun a b => callbackKey a ≤ callbackKey b)
    (db.jobs.select r.Selects)).map ProcessingJob.id).nodup_iff.mpr hsel
  exact hsorted.sublist ((List.take_sublist _ _).map _)

/-- **The claims a callback request makes** are those of the rows it selected. -/
theorem claimDeadLetterCallbacks_spec (db : Db) (r : CallbackRequest) (hr : r.subscriberIds ≠ []) :
    (claimDeadLetterCallbacks db r).1 = (callbackRows db r).map claimedCallback ∧
      ∀ id, (claimDeadLetterCallbacks db r).2.jobs.get id = (db.jobs.get id).map fun j =>
        if j.id ∈ (callbackRows db r).map ProcessingJob.id then r.claimRow j else j := by
  have hne : r.subscriberIds.isEmpty = false := by simpa using hr
  have hspec := @foldl_claimCallbackRow r _ [] db.jobs
    (fun row h => ⟨(mem_callbackRows h).1, (mem_callbackRows h).2.1⟩) (nodup_callbackRows db r)
  simpa [claimDeadLetterCallbacks, hne] using hspec

/-! ## Every call -/

/-- An insert adds at most the one new row. -/
theorem insertJob_ok {db db' : Db} {event : Event} {subscriberId : SubscriberId} {queue : String}
    {maxAttempts : ℤ} {now : Instant} {availableAt : Option Instant} {jobId id : JobId}
    (h : insertJob db event subscriberId queue maxAttempts now availableAt jobId = .ok (id, db')) :
    db' = db ∨
      db' = { db with
        jobs := db.jobs.insert
          (newJob event subscriberId queue maxAttempts now availableAt jobId) } := by
  rw [insertJob] at h
  cases hq : validateQueueName queue with
  | error e => simp [hq, bind, Except.bind] at h
  | ok name =>
    obtain rfl := (validateQueueName_ok hq).1
    simp only [hq, bind, Except.bind] at h
    split at h
    · exact Or.inl (congrArg Prod.snd (Except.ok.inj h)).symm
    · exact Or.inr (congrArg Prod.snd (Except.ok.inj h)).symm

/-- The ids one scan finds are those of rows that match and are not locked. -/
theorem mem_scanRange {db : Db} {filters : ProcessingJob → Prop} [DecidablePred filters]
    {bounds : ProcessingJob → Bool} {locked : List JobId} {remaining : ℕ} {id : JobId}
    (h : id ∈ scanRange db filters bounds locked remaining) :
    id ∉ locked ∧ ∃ j, db.jobs.get id = some j ∧ filters j := by
  obtain ⟨j, hj, rfl⟩ := List.mem_map.mp h
  have hsel := (List.perm_insertionSort _ _).mem_iff.mp (List.mem_of_mem_take hj)
  obtain ⟨hrow, hf, -, hl⟩ := Table.mem_select.mp hsel
  exact ⟨hl, j, Table.get_key hrow, hf⟩

/-- The ids selected are those of rows that match and are not locked. -/
theorem mem_selectDueIds {db : Db} {filters : ProcessingJob → Prop} [DecidablePred filters]
    {queueCursor : Option String} {limit : ℕ} {locked : List JobId} {id : JobId}
    (h : id ∈ selectDueIds db filters queueCursor limit locked) :
    id ∉ locked ∧ ∃ j, db.jobs.get id = some j ∧ filters j := by
  have hfold (ranges : List (ProcessingJob → Bool)) (acc : List JobId) :
      id ∈ ranges.foldl (fun jobIds bounds =>
        jobIds ++ scanRange db filters bounds locked (limit - jobIds.length)) acc →
        id ∈ acc ∨ (id ∉ locked ∧ ∃ j, db.jobs.get id = some j ∧ filters j) := by
    induction ranges generalizing acc with
    | nil => exact Or.inl
    | cons bounds rest ih =>
      intro hm
      rw [List.foldl_cons] at hm
      rcases ih _ hm with hm | hfound
      · rcases List.mem_append.mp hm with hacc | hs
        · exact Or.inl hacc
        · exact Or.inr (mem_scanRange hs)
      · exact Or.inr hfound
  exact (hfold _ [] h).resolve_left List.not_mem_nil

/-- The read-back finds the rows of the batch that the worker has a claim on. -/
theorem mem_claimReadBack {db : Db} {workerId : WorkerId} {jobIds : List JobId}
    {j : ProcessingJob} :
    j ∈ claimReadBack db workerId jobIds ↔ j ∈ db.jobs.rows ∧ ClaimedBy jobIds workerId j := by
  rw [claimReadBack, (List.perm_insertionSort _ _).mem_iff, Table.mem_select]

/-- Each job is read back once. -/
theorem nodup_claimReadBack (db : Db) (workerId : WorkerId) (jobIds : List JobId) :
    ((claimReadBack db workerId jobIds).map ProcessingJob.id).Nodup := by
  have hsel : ((db.jobs.select (ClaimedBy jobIds workerId)).map ProcessingJob.id).Nodup :=
    db.jobs.nodup.sublist (List.filter_sublist.map _)
  exact ((List.perm_insertionSort _ _).map ProcessingJob.id).nodup_iff.mpr hsel

/-- An atomic claim either takes nothing or is the second half of a claim of due rows. -/
theorem claimJobs_ok {db db' : Db} {r : ClaimRequest} {mint : JobId → AttemptId}
    {claimed : List ProcessingJob} (h : claimJobs db r mint = .ok (claimed, db')) :
    (db' = db ∧ claimed = []) ∨
      ∃ selected jobIds, db' = claimUpdate db r jobIds mint ∧
        claimed = claimReadBack db' r.workerId jobIds ∧
        ∀ id ∈ jobIds, ∃ j, db.jobs.get id = some j ∧ r.Due selected j := by
  rw [claimJobs] at h
  cases hs : normalizeQueueSelector r.queues with
  | error e => simp [hs, bind, Except.bind] at h
  | ok selected =>
    cases hc : checkQueueCursor r.queueCursor with
    | error e => simp [hs, hc, bind, Except.bind] at h
    | ok u =>
      simp only [hs, hc, bind, Except.bind] at h
      split at h
      · obtain ⟨rfl, rfl⟩ := Prod.mk.inj (Except.ok.inj h)
        exact Or.inl ⟨rfl, rfl⟩
      · obtain ⟨rfl, rfl⟩ := Prod.mk.inj (Except.ok.inj h)
        exact Or.inr ⟨selected, _, rfl, rfl, fun id hid => (mem_selectDueIds hid).2⟩

/-- The row a call inserts, when it inserts one. -/
def Call.newRow : Call → Option ProcessingJob
  | .insert event subscriberId queue maxAttempts now availableAt jobId =>
    some (newJob event subscriberId queue maxAttempts now availableAt jobId)
  | _ => none

/-- A new job is pending. -/
theorem status_newRow {c : Call} {j : ProcessingJob} (h : c.newRow = some j) :
    j.status = .pending := by
  cases c with
  | insert event subscriberId queue maxAttempts now availableAt jobId =>
    obtain rfl := Option.some.inj h
    rfl
  | _ => exact nomatch h

/-- A row written under a guard is kept or stepped, whichever the guard says. -/
theorem RowStep.ite {c : Call} {p : Prop} [Decidable p] {j j' : ProcessingJob}
    (h : p → RowStep c j j') : RowStep c j (if p then j' else j) := by
  split
  case isTrue hp => exact h hp
  case isFalse => exact .keep

/-- **A call takes every row that is there through one row step.** -/
theorem run_get_some (c : Call) {db : Db} {id : JobId} {j : ProcessingJob}
    (hj : db.jobs.get id = some j) : ∃ j', (c.run db).jobs.get id = some j' ∧ RowStep c j j' := by
  cases c with
  | insert event subscriberId queue maxAttempts now availableAt jobId =>
    refine ⟨j, ?_, .keep⟩
    rw [Call.run]
    split
    case h_1 id' db' h =>
      -- an id that is taken makes the insert fail, and another row is added behind this one
      rcases insertJob_ok h with rfl | rfl
      · exact hj
      · simp [Table.get_insert, hj]
    case h_2 => exact hj
  | claim r mint =>
    rw [Call.run]
    split
    case h_1 claimed db' h =>
      rcases claimJobs_ok h with ⟨rfl, -⟩ | ⟨-, jobIds, rfl, -⟩
      · exact ⟨j, hj, .keep⟩
      · rw [get_claimUpdate, hj]
        exact ⟨_, rfl, .ite fun ht => .claim ht.2⟩
    case h_2 => exact ⟨j, hj, .keep⟩
  | claimSelected r jobIds mint =>
    rw [Call.run, get_claimUpdate, hj]
    exact ⟨_, rfl, .ite .claimSelected⟩
  | renew jobAttempts workerId leaseSeconds now =>
    rw [Call.run, get_renewLeases, hj]
    exact ⟨_, rfl, .ite .renew⟩
  | release jobAttempts workerId now recordAttempts =>
    rw [Call.run, get_releaseLeases, hj]
    exact ⟨_, rfl, .ite .release⟩
  | settle s claim args =>
    rw [Call.run, get_settle, hj]
    exact ⟨_, rfl, .ite fun ho => .settle ho (settleStep_apply s args.now j)⟩
  | reclaim now limit scan =>
    rw [Call.run, get_reclaim, hj]
    refine ⟨_, rfl, .ite fun h => ?_⟩
    rw [ProcessingJob.expire]
    split
    case isTrue hspent => exact .expireLast h.2 hspent
    case isFalse hspent => exact .expireRequeue h.2 (lt_of_not_ge hspent)
  | replay jobId now =>
    rw [Call.run, get_replay, hj]
    refine ⟨_, rfl, .ite ?_⟩
    rintro ⟨rfl, hs⟩
    exact .replay hs
  | close jobAttempts workerId outcome now =>
    rw [Call.run, closeAttempts, jobs_closeOpen]
    exact ⟨j, hj, .keep⟩
  | markStarted claim now => exact ⟨j, hj, .keep⟩
  | claimCallbacks r =>
    by_cases hr : r.subscriberIds = []
    · have hrun : Call.run db (.claimCallbacks r) = db := by
        simp [Call.run, claimDeadLetterCallbacks, hr]
      rw [hrun]
      exact ⟨j, hj, .keep⟩
    · rw [Call.run, (claimDeadLetterCallbacks_spec db r hr).2, hj]
      refine ⟨_, rfl, .ite fun hm => ?_⟩
      -- the row was selected as a dead letter
      obtain ⟨row, hrow, hid⟩ := List.mem_map.mp hm
      obtain ⟨hg, hs⟩ := mem_callbackRows hrow
      obtain rfl := Table.eq_of_key_eq (Table.mem_of_get hg) (Table.mem_of_get hj) hid
      exact .claimCallback hs
  | markNotified claim now =>
    rw [Call.run, markDeadLetterNotified, get_updateDeadLetter, hj]
    exact ⟨_, rfl, .ite .notified⟩
  | deferCallback claim retryAt error =>
    rw [Call.run, deferDeadLetterCallback, get_updateDeadLetter, hj]
    exact ⟨_, rfl, .ite .deferCallback⟩
  | releaseCallback claim =>
    rw [Call.run, releaseDeadLetterClaim, get_updateDeadLetter, hj]
    exact ⟨_, rfl, .ite .releaseCallback⟩

/-- **A call adds no row but the one it inserts.** -/
theorem run_get_none (c : Call) {db : Db} {id : JobId} {j' : ProcessingJob}
    (hj : db.jobs.get id = none) (hj' : (c.run db).jobs.get id = some j') :
    c.newRow = some j' := by
  cases c with
  | insert event subscriberId queue maxAttempts now availableAt jobId =>
    rw [Call.run] at hj'
    split at hj'
    case h_1 id' db' h =>
      rcases insertJob_ok h with rfl | rfl
      · simp [hj] at hj'
      · -- it is the row that was inserted
        rw [Table.get_insert, hj] at hj'
        exact (Option.ite_none_right_eq_some.mp hj').2
    case h_2 => simp [hj] at hj'
  | claim r mint =>
    rw [Call.run] at hj'
    split at hj'
    case h_1 claimed db' h =>
      rcases claimJobs_ok h with ⟨rfl, -⟩ | ⟨-, jobIds, rfl, -⟩
      · simp [hj] at hj'
      · simp [get_claimUpdate, hj] at hj'
    case h_2 => simp [hj] at hj'
  | claimSelected r jobIds mint => simp [Call.run, get_claimUpdate, hj] at hj'
  | renew jobAttempts workerId leaseSeconds now => simp [Call.run, get_renewLeases, hj] at hj'
  | release jobAttempts workerId now recordAttempts =>
    simp [Call.run, get_releaseLeases, hj] at hj'
  | settle s claim args => simp [Call.run, get_settle, hj] at hj'
  | reclaim now limit scan => simp [Call.run, get_reclaim, hj] at hj'
  | replay jobId now => simp [Call.run, get_replay, hj] at hj'
  | close jobAttempts workerId outcome now =>
    simp [Call.run, closeAttempts, hj] at hj'
  | markStarted claim now => simp [Call.run, markAttemptStarted, hj] at hj'
  | claimCallbacks r =>
    by_cases hr : r.subscriberIds = []
    · simp [Call.run, claimDeadLetterCallbacks, hr, hj] at hj'
    · rw [Call.run, (claimDeadLetterCallbacks_spec db r hr).2, hj] at hj'
      cases hj'
  | markNotified claim now =>
    simp [Call.run, markDeadLetterNotified, get_updateDeadLetter, hj] at hj'
  | deferCallback claim retryAt error =>
    simp [Call.run, deferDeadLetterCallback, get_updateDeadLetter, hj] at hj'
  | releaseCallback claim =>
    simp [Call.run, releaseDeadLetterClaim, get_updateDeadLetter, hj] at hj'

/-- **Every call, one row at a time**: a row found after it is the one it inserted, or the row that
was there before after one row step. -/
theorem run_get (c : Call) {db : Db} {id : JobId} {j' : ProcessingJob}
    (hj' : (c.run db).jobs.get id = some j') :
    (db.jobs.get id = none ∧ c.newRow = some j') ∨
      ∃ j, db.jobs.get id = some j ∧ RowStep c j j' := by
  cases hj : db.jobs.get id with
  | none => exact Or.inl ⟨rfl, run_get_none c hj hj'⟩
  | some j =>
    obtain ⟨j'', hj'', hs⟩ := run_get_some c hj
    obtain rfl := Option.some.inj (hj''.symm.trans hj')
    exact Or.inr ⟨j, rfl, hs⟩

/-- **A dead letter leaves that status by a replay only.** -/
theorem RowStep.of_deadLetter {c : Call} {j j' : ProcessingJob} (h : RowStep c j j')
    (hd : j.status = .deadLetter) : j'.status = .deadLetter ∨ ∃ id now, c = .replay id now := by
  have hne {p q : Prop} (hp : j.status = .pending ∨ j.status = .claimed) : p ∨ q := by
    simp [hd] at hp
  cases h with
  | replay _ => exact Or.inr ⟨_, _, rfl⟩
  | claim hp => exact hne (Or.inl hp)
  | claimSelected ht => exact hne (Or.inl ht.2)
  | release hh => exact hne (Or.inr hh.2.1)
  | settle ho _ => exact hne (Or.inr ho.2.1)
  | expireLast _ _ => exact Or.inl rfl
  | expireRequeue he _ => exact hne (Or.inr he.1)
  | _ => exact Or.inl hd

/-! ## Calls to evaluate -/

/-- An event that one subscriber reacts to. -/
def sampleEvent : Event where
  eventId := "event"
  eventType := "order.placed"
  source := "api"
  timestamp := "2026-01-01T00:00:00+00:00"
  payload := []

/-- Enqueue the job of `sampleEvent`. -/
def sampleInsert (maxAttempts : ℤ) : Call :=
  .insert sampleEvent "mailer" defaultQueue maxAttempts 0 none "job"

/-- Claim the job for a minute. -/
def sampleClaim (workerId : WorkerId) (now : Instant) (attemptId : AttemptId) : Call :=
  .claim { workerId := workerId, limit := 1, leaseSeconds := 60, now := now } fun _ => attemptId

end Jasil.Jobs
