import Jasil.Jobs.RowInvariant
import Jasil.Jobs.Runner

/-! # What a handler is told
The event a handler is called with is built from a snapshot of the job's row, the event of a dead-letter
callback from the row itself, and what becomes of a failed claim is decided from the row again.

* **`event_eq`**: from its claim to its callback a job's event stays the same.
* **`handler_told`**: so what the event says of the attempt is what happens to it. -/

namespace Jasil.Jobs

/-! ## Events -/

/-- The 1-based attempt a handler is running. -/
def Event.attempt (event : Event) : Option ℤ := event.maxAttempts.map fun _ => event.retryCount

/-- A failure now makes the job a dead letter. -/
def Event.isLastAttempt (event : Event) : Bool := event.maxAttempts.any (· ≤ event.retryCount)

/-- What a snapshot holds for the handler, besides what the runner reads. -/
structure HandlerSnapshot extends ClaimedJob where
  eventId : String
  eventType : String
  source : String
  payload : JsonObject
  metadata : Option JsonObject
  deferrals : ℤ
  continuations : ℤ
  budgetOffset : ℤ
  timestamp : String
  schemaVersion : ℤ
  maxAttempts : ℤ

/-- `_snapshot`, in full. -/
def ProcessingJob.handlerSnapshot (j : ProcessingJob) : HandlerSnapshot where
  toClaimedJob := j.snapshot
  eventId := j.eventId
  eventType := j.eventType
  source := j.source
  payload := j.payload
  metadata := j.jobMetadata.filter fun metadata => !metadata.isEmpty
  deferrals := j.deferrals
  continuations := j.continuations
  budgetOffset := j.budgetOffset
  timestamp := envelopeTimestamp j
  schemaVersion := j.schemaVersion
  maxAttempts := j.maxAttempts

/-- `_event_from`. -/
def HandlerSnapshot.event (job : HandlerSnapshot) : Event where
  eventId := job.eventId
  eventType := job.eventType
  source := job.source
  timestamp := job.timestamp
  payload := job.payload
  metadata := job.metadata.getD []
  retryCount := job.attempts - job.deferrals - job.budgetOffset
  schemaVersion := job.schemaVersion
  maxAttempts := some job.maxAttempts
  deferralCount := job.deferrals
  continuationCount := job.continuations

/-- The handler's event is the one that the row carries. -/
theorem event_handlerSnapshot (j : ProcessingJob) : j.handlerSnapshot.event = eventFromRow j := by
  have hmetadata : (j.jobMetadata.filter fun metadata => !metadata.isEmpty).getD []
      = j.jobMetadata.getD [] := by
    cases hm : j.jobMetadata with
    | none => rfl
    | some metadata => cases metadata <;> rfl
  unfold HandlerSnapshot.event ProcessingJob.handlerSnapshot eventFromRow
  dsimp only
  rw [hmetadata]
  rfl

/-- The attempt is the last one when the budget is spent. -/
theorem isLastAttempt_eventFromRow (j : ProcessingJob) :
    (eventFromRow j).isLastAttempt = decide (j.maxAttempts ≤ j.spent) := rfl

/-! ## From the claim to the callback -/

/-- The claim of a job is under way, or has made it a dead letter. -/
def Unsettled (j : ProcessingJob) : Prop := j.status = .claimed ∨ j.status = .deadLetter

instance : DecidablePred Unsettled := fun _ => inferInstanceAs (Decidable (_ ∨ _))

/-- **From its claim to its callback a job's event stays the same.** -/
theorem RowStep.event_eq {c : Call} {j j' : ProcessingJob} (h : RowStep c j j') (hj : Unsettled j)
    (hj' : Unsettled j') : eventFromRow j' = eventFromRow j := by
  -- a row that is pending or completed is neither
  have hout {k : ProcessingJob} (hk : Unsettled k) (hs : k.status = .pending ∨ k.status = .completed) :
      eventFromRow j' = eventFromRow j := by
    rcases hk with hk | hk <;> rcases hs with hs | hs <;> exact nomatch hk.symm.trans hs
  cases h with
  | keep | renew | expireLast | claimCallback | notified | deferCallback | releaseCallback => rfl
  | claim hp => exact hout hj (.inl hp)
  | claimSelected ht => exact hout hj (.inl ht.2)
  | release | expireRequeue | replay => exact hout hj' (.inl rfl)
  | settle ho hset =>
    cases hset with
    | complete => exact hout hj' (.inr rfl)
    | failLast | deferExhausted | continueExhausted => rfl
    | failRetry | defer | continued => exact hout hj' (.inl rfl)

/-- The call leaves the job under its claim, or makes it a dead letter. -/
def LeavesUnsettled (id : JobId) (db : Db) (c : Call) : Prop :=
  ∀ j ∈ (c.run db).jobs.get id, Unsettled j

/-- The job as it stands at the end of such calls. -/
theorem event_eq_of_reaches {db db' : Db} {id : JobId} {j : ProcessingJob}
    (hj : db.jobs.get id = some j) (hs : Unsettled j)
    (h : Reaches Call.step (LeavesUnsettled id) db db') :
    ∃ j', db'.jobs.get id = some j' ∧ Unsettled j' ∧ eventFromRow j' = eventFromRow j := by
  refine h.invariant (fun db' => ∃ j', db'.jobs.get id = some j' ∧ Unsettled j'
    ∧ eventFromRow j' = eventFromRow j) ⟨j, hj, hs, rfl⟩ ?_
  rintro db' c db'' - ⟨j', hj', hs', heq⟩ hok hstep
  obtain rfl := Option.some.inj hstep
  obtain ⟨j'', hj'', hrow⟩ := run_get_some c hj'
  have hs'' := hok j'' hj''
  exact ⟨j'', hj'', hs'', (hrow.event_eq hs' hs'').trans heq⟩

/-- **A callback is given the event of the row**, as it stands. -/
theorem event_of_claimed {db : Db} {r : CallbackRequest} {d : DeadLetterJob}
    (hd : d ∈ (claimDeadLetterCallbacks db r).1) :
    ∃ j, db.jobs.get d.id = some j ∧ d.event = eventFromRow j := by
  by_cases hr : r.subscriberIds = []
  · rw [claimDeadLetterCallbacks, hr] at hd
    exact absurd hd List.not_mem_nil
  · rw [(claimDeadLetterCallbacks_spec db r hr).1] at hd
    obtain ⟨row, hrow, rfl⟩ := List.mem_map.mp hd
    exact ⟨row, (mem_callbackRows hrow).1, rfl⟩

/-! ## What happens to a claim -/

/-- **A failure under the claim**: a dead letter on the last attempt, else pending until the attempt's backoff
is over. -/
theorem fail_of_owned {db : Db} {claim : ClaimGeneration} {j : ProcessingJob}
    (hj : db.jobs.get claim.jobId = some j) (howned : OwnedClaim claim j) (text : String)
    (base ceiling : ℚ) (jitter : Option ℚ) (args : SettleArgs) :
    ∃ j', ((Settle.fail text base ceiling jitter).run db claim args).2.jobs.get claim.jobId = some j' ∧
      ((j.maxAttempts ≤ j.spent
          ∧ ((Settle.fail text base ceiling jitter).run db claim args).1 = some .deadLetter
          ∧ j'.status = .deadLetter)
        ∨ (¬j.maxAttempts ≤ j.spent
          ∧ ((Settle.fail text base ceiling jitter).run db claim args).1 = some .pending
          ∧ j'.status = .pending
          ∧ j'.availableAt = args.now + timedelta (backoffSeconds j.spent base ceiling jitter))) := by
  have hget := get_settle (.fail text base ceiling jitter) db claim args claim.jobId
  rw [hj, Option.map_some, if_pos howned] at hget
  refine ⟨_, hget, ?_⟩
  rw [Settle.run_of_owned _ args hj howned, Settle.verdict, failVerdict]
  by_cases hlast : j.maxAttempts ≤ j.spent
  · rw [if_pos hlast]
    exact .inl ⟨hlast, rfl, rfl⟩
  · rw [if_neg hlast]
    exact .inr ⟨hlast, rfl, rfl, rfl⟩

/-- **A reaper pass that finds the lease expired**: a dead letter on the last attempt, else pending at once. -/
theorem reclaim_of_expired {db : Db} {j : ProcessingJob} {now : Instant} {limit : ℕ} {scan : List JobId}
    (hj : db.jobs.get j.id = some j) (hexpired : LeaseExpired now j)
    (hfound : j.id ∈ expiredIds db now limit scan) :
    ∃ j', (reclaimExpiredLeases db now limit scan).2.jobs.get j.id = some j' ∧
      ((j.maxAttempts ≤ j.spent ∧ j'.status = .deadLetter)
        ∨ (¬j.maxAttempts ≤ j.spent ∧ j'.status = .pending ∧ j'.availableAt = now)) := by
  have hget := get_reclaim db now limit scan j.id
  rw [hj, Option.map_some, if_pos ⟨hfound, hexpired⟩] at hget
  refine ⟨_, hget, ?_⟩
  unfold ProcessingJob.expire
  by_cases hlast : j.maxAttempts ≤ j.spent
  · rw [if_pos hlast]
    exact .inl ⟨hlast, rfl⟩
  · rw [if_neg hlast]
    exact .inr ⟨hlast, rfl, rfl⟩

/-- **What the handler is told agrees with what happens to it.** While a claim of a job is under way, an
owned `mark_job_failed` makes the job a dead letter when the handler's event said it was the last attempt,
and otherwise puts it back for the backoff of just the attempt the event gave. A reaper pass that finds the
lease expired decides the same way, but puts the job back at once. The event of the callback that follows has
the same counts. -/
theorem handler_told {db : Db} {id : JobId} {j : ProcessingJob} (hj : db.jobs.get id = some j)
    (hclaimed : j.status = .claimed) {db' : Db}
    (hrun : Reaches Call.step (LeavesUnsettled id) db db') :
    let event := j.handlerSnapshot.event
    (∀ claim : ClaimGeneration, claim.jobId = id → Owned db' claim → ∀ text base ceiling jitter args,
        let failed := (Settle.fail text base ceiling jitter).run db' claim args
        (event.isLastAttempt = true ↔
            failed.1 = some .deadLetter ∧ ∃ j' ∈ failed.2.jobs.get id, j'.status = .deadLetter)
          ∧ (event.isLastAttempt = false ↔
            failed.1 = some .pending ∧ ∃ j' ∈ failed.2.jobs.get id, j'.status = .pending
              ∧ ∃ attempt ∈ event.attempt,
                j'.availableAt = args.now + timedelta (backoffSeconds attempt base ceiling jitter)))
      ∧ (∀ now limit scan, (∃ j' ∈ db'.jobs.get id, LeaseExpired now j') →
        id ∈ expiredIds db' now limit scan →
          let reclaimed := (reclaimExpiredLeases db' now limit scan).2
          (event.isLastAttempt = true ↔ ∃ j' ∈ reclaimed.jobs.get id, j'.status = .deadLetter)
            ∧ (event.isLastAttempt = false ↔
              ∃ j' ∈ reclaimed.jobs.get id, j'.status = .pending ∧ j'.availableAt = now))
      ∧ ∀ r, ∀ d ∈ (claimDeadLetterCallbacks db' r).1, d.id = id →
        d.event.attempt = event.attempt ∧ d.event.deferralCount = event.deferralCount
          ∧ d.event.continuationCount = event.continuationCount := by
  intro event
  -- the event counts what no call changes while the claim lasts
  obtain ⟨j', hj', hs', heq⟩ := event_eq_of_reaches hj (.inl hclaimed) hrun
  have hevent : event = eventFromRow j' := (event_handlerSnapshot j).trans heq.symm
  have hlast : event.isLastAttempt = decide (j'.maxAttempts ≤ j'.spent) := by
    rw [hevent, isLastAttempt_eventFromRow]
  obtain rfl := Table.key_of_get hj'
  refine ⟨?_, ?_, ?_⟩
  · rintro ⟨jobId, workerId, attempt⟩ rfl howned text base ceiling jitter args failed
    obtain ⟨k, hk, howned⟩ := howned
    obtain rfl := Option.some.inj (hj'.symm.trans hk)
    obtain ⟨j'', hj'', hcases⟩ := fail_of_owned hj' howned text base ceiling jitter args
    have hget : failed.2.jobs.get j'.id = some j'' := hj''
    rw [hlast, hget]
    rcases hcases with ⟨hbudget, hreport, hstatus⟩ | ⟨hbudget, hreport, hstatus, havailable⟩
    · have hreport : failed.1 = some .deadLetter := hreport
      simp [hbudget, hreport, hstatus]
    · have hreport : failed.1 = some .pending := hreport
      have hattempt : event.attempt = some j'.spent := by rw [hevent]; rfl
      simp [hbudget, hreport, hstatus, hattempt, havailable]
  · rintro now limit scan ⟨k, hk, hexpired⟩ hfound
    obtain rfl := Option.some.inj (hj'.symm.trans hk)
    obtain ⟨j'', hj'', hcases⟩ := reclaim_of_expired hj' hexpired hfound
    dsimp only
    rw [hlast, hj'']
    rcases hcases with ⟨hbudget, hstatus⟩ | ⟨hbudget, hstatus, havailable⟩
    · simp [hbudget, hstatus]
    · simp [hbudget, hstatus, havailable]
  · rintro r d hd hid
    obtain ⟨k, hk, hdevent⟩ := event_of_claimed hd
    rw [hid] at hk
    obtain rfl := Option.some.inj (hj'.symm.trans hk)
    rw [hdevent, hevent]
    exact ⟨rfl, rfl, rfl⟩

/-- A job claimed by a worker for a minute. -/
def claimedOnce : Db := (sampleClaim "worker" 1 "attempt").run ((sampleInsert 3).run Db.empty)

instance decidableLeavesUnsettled (id : JobId) (db : Db) (c : Call) : Decidable (LeavesUnsettled id db c) :=
  inferInstanceAs (Decidable (∀ j ∈ (c.run db).jobs.get id, Unsettled j))

/-- A job with two tries that failed once, and is claimed again. -/
def claimedLast : Db :=
  [sampleInsert 2, sampleClaim "worker" 1 "a",
  .settle (.fail "boom" 1 60 none) ⟨"job", "worker", 1⟩ { now := 2 },
    sampleClaim "worker" 2000000 "b"].foldl Call.run Db.empty

/-- While its handler runs, its lease is renewed, and another job is staged and claimed. -/
def claimedLastCalls : List Call :=
  [.markStarted ⟨"job", "worker", 2⟩ 2000001, .renew [("job", 2)] "worker" 60 30000000,
    .insert sampleEvent "pager" defaultQueue 3 30000001 none "other", sampleClaim "second" 30000002 "c"]

/-- The tables after these calls, and those after the lease of the job has expired as well. -/
def runningLast (expired : Bool) : Db :=
  runTo Call.step (LeavesUnsettled "job") claimedLast
    (claimedLastCalls ++ if expired then [.reclaim 100000000 10 ["job"]] else [])

/-- The calls leave the job under its claim, or make it a dead letter. -/
theorem reaches_runningLast (expired : Bool) :
    Reaches Call.step (LeavesUnsettled "job") claimedLast (runningLast expired) := by
  refine reaches_runTo ?_
  cases expired <;> decide +kernel

/-- The second of two attempts is the last one: a failure makes the job a dead letter, and so does its lease
when it expires; and the callback is told of the same attempt. -/
theorem handler_told_last :
    ∃ j ∈ claimedLast.jobs.get "job", j.handlerSnapshot.event.isLastAttempt = true
      ∧ ((Settle.fail "boom" 60 3600 none).run (runningLast false) ⟨"job", "worker", 2⟩ { now := 50000000 }).1
        = some .deadLetter
      ∧ (∃ j' ∈ (reclaimExpiredLeases (runningLast false) 100000000 10 ["job"]).2.jobs.get "job",
        j'.status = .deadLetter)
      ∧ (claimDeadLetterCallbacks (runningLast true) ⟨["mailer"], 100000001, 300, none, 100, none,
        none⟩).1.length = 1
      ∧ ∀ d ∈ (claimDeadLetterCallbacks (runningLast true) ⟨["mailer"], 100000001, 300, none, 100, none,
        none⟩).1,
        d.id = "job" → d.event.attempt = some 2 := by
  have hread : (claimedLast.jobs.get "job").map (fun j =>
      (j.status, j.handlerSnapshot.event.isLastAttempt, j.handlerSnapshot.event.attempt))
        = some (.claimed, true, some 2) := by decide +kernel
  obtain ⟨j, hj, hread⟩ := Option.map_eq_some_iff.mp hread
  obtain ⟨hstatus, hread⟩ := Prod.mk.inj hread
  obtain ⟨hlast, hattempt⟩ := Prod.mk.inj hread
  have howned : Owned (runningLast false) ⟨"job", "worker", 2⟩ := by decide +kernel
  have hexpired : ∃ j' ∈ (runningLast false).jobs.get "job", LeaseExpired 100000000 j' := by decide +kernel
  obtain ⟨hfail, hreclaim, -⟩ := handler_told hj hstatus (reaches_runningLast false)
  obtain ⟨-, -, hcallback⟩ := handler_told hj hstatus (reaches_runningLast true)
  refine ⟨j, hj, hlast, ?_, ?_, by decide +kernel, fun d hd hid => ?_⟩
  · exact ((hfail _ rfl howned "boom" 60 3600 none { now := 50000000 }).1.mp hlast).1
  · exact (hreclaim 100000000 10 ["job"] hexpired (by decide +kernel)).1.mp hlast
  · rw [(hcallback _ d hd hid).1, hattempt]

/-- **A job whose lease expired is not put back for a backoff.** -/
theorem handler_told_not_reaped :
    ¬ ∀ (db : Db) (id : JobId) (j : ProcessingJob) now limit scan (base ceiling : ℚ) jitter,
      Reaches Call.step (fun _ _ => True) Db.empty db → db.jobs.get id = some j → LeaseExpired now j →
        id ∈ expiredIds db now limit scan → 0 < base → base ≤ ceiling →
          (j.handlerSnapshot.event.isLastAttempt = false ↔
            ∃ j' ∈ (reclaimExpiredLeases db now limit scan).2.jobs.get id, j'.status = .pending
              ∧ ∃ attempt ∈ j.handlerSnapshot.event.attempt,
                j'.availableAt = now + timedelta (backoffSeconds attempt base ceiling jitter)) := by
  intro hclaim
  have hr : Reaches Call.step (fun _ _ => True) Db.empty claimedOnce :=
    (Reaches.refl.tail trivial rfl).tail trivial rfl
  obtain ⟨j, hj⟩ : ∃ j, claimedOnce.jobs.get "job" = some j := ⟨_, rfl⟩
  have hlast : j.handlerSnapshot.event.isLastAttempt = false
      ∧ j.handlerSnapshot.event.attempt = some 1 ∧ LeaseExpired 100000000 j := by
    obtain rfl := Option.some.inj hj
    exact ⟨rfl, rfl, by decide +kernel⟩
  obtain ⟨j', hj', -, attempt, hattempt, havailable⟩ :=
    (hclaim claimedOnce "job" j 100000000 10 ["job"] 60 3600 none hr hj hlast.2.2
      (by decide +kernel) (by decide +kernel) (by decide +kernel)).mp hlast.1
  rw [hlast.2.1] at hattempt
  obtain rfl := Option.some.inj hattempt
  have hnow : ∀ k ∈ (reclaimExpiredLeases claimedOnce 100000000 10 ["job"]).2.jobs.get "job",
      k.availableAt = 100000000 := by decide +kernel
  rw [hnow j' hj'] at havailable
  exact absurd havailable (by decide +kernel)

end Jasil.Jobs
