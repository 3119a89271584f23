import Jasil.Jobs.Calls
import Jasil.Transition.Reachability

/-! # The job-row invariant
What every row of `processing_jobs` satisfies in every state that any sequence of calls, by any
workers and with any arguments, can reach: **`WellFormed`**. The lease columns, the end of the job
and the callback columns go with the status, and the failure budget (`ProcessingJob.spent`) stays
within what the status allows. -/

namespace Jasil.Jobs

/-- The bounds the status puts on what the job has spent of its budget. -/
def WithinBudget (j : ProcessingJob) : Prop :=
  match j.status with
  | .pending => 0 ≤ j.spent ∧ j.spent < j.maxAttempts
  | .claimed | .completed => 1 ≤ j.spent ∧ j.spent ≤ j.maxAttempts
  | .deadLetter => j.spent = j.maxAttempts

/-- **The job-row invariant.** -/
structure WellFormed (j : ProcessingJob) : Prop where
  leased : j.status = .claimed → j.lockedBy ≠ none ∧ j.lockedAt ≠ none ∧ j.leaseExpiresAt ≠ none
  unleased : j.status ≠ .claimed → j.lockedBy = none ∧ j.lockedAt = none ∧ j.leaseExpiresAt = none
  ended : j.completedAt ≠ none ↔ j.status = .completed ∨ j.status = .deadLetter
  noCallback : j.status ≠ .deadLetter →
    j.deadLetterNotifiedAt = none ∧ j.deadLetterNotifyAfter = none ∧
      j.deadLetterCallbackError = none ∧ j.deadLetterAttempts = 0
  counters : 0 ≤ j.deferrals ∧ 0 ≤ j.continuations ∧ 0 ≤ j.budgetOffset
  budget : WithinBudget j

/-! ## One step -/

/-- No call changes the ceiling of a job. -/
theorem RowStep.maxAttempts_eq {c : Call} {j j' : ProcessingJob} (h : RowStep c j j') :
    j'.maxAttempts = j.maxAttempts := by
  cases h with
  | settle _ hs => cases hs <;> rfl
  | _ => rfl

/-- A new job is well formed. -/
theorem wellFormed_newRow {c : Call} {j : ProcessingJob} (h : c.newRow = some j)
    (hmax : 1 ≤ j.maxAttempts) : WellFormed j := by
  cases c with
  | insert event subscriberId queue maxAttempts now availableAt jobId =>
    obtain rfl := Option.some.inj h
    have hmax : 1 ≤ maxAttempts := hmax
    constructor <;> simp [newJob, WithinBudget, ProcessingJob.spent]
    omega
  | _ => exact nomatch h

/-- The row holds no lease. -/
def Unleased (j : ProcessingJob) : Prop :=
  j.lockedBy = none ∧ j.lockedAt = none ∧ j.leaseExpiresAt = none

/-- The callback columns of two rows agree. -/
def SameCallback (j j' : ProcessingJob) : Prop :=
  j'.deadLetterNotifiedAt = j.deadLetterNotifiedAt ∧
    j'.deadLetterNotifyAfter = j.deadLetterNotifyAfter ∧
    j'.deadLetterCallbackError = j.deadLetterCallbackError ∧
    j'.deadLetterAttempts = j.deadLetterAttempts

/-- A claimed row that goes back to `pending` without its lease, with some budget left. -/
theorem WellFormed.requeue {j j' : ProcessingJob} (hj : WellFormed j) (hs : j.status = .claimed)
    (hs' : j'.status = .pending) (hlease : Unleased j') (hend : j'.completedAt = j.completedAt)
    (hcall : SameCallback j j')
    (hcount : 0 ≤ j'.deferrals ∧ 0 ≤ j'.continuations ∧ 0 ≤ j'.budgetOffset)
    (hbudget : 0 ≤ j'.spent ∧ j'.spent < j'.maxAttempts) : WellFormed j' where
  leased h := by simp [hs'] at h
  unleased _ := hlease
  ended := by
    rw [hend, hj.ended, hs, hs']
    simp
  noCallback _ := by
    obtain ⟨h1, h2, h3, h4⟩ := hcall
    rw [h1, h2, h3, h4]
    exact hj.noCallback (by simp [hs])
  counters := hcount
  budget := by simpa only [WithinBudget, hs'] using hbudget

/-- A claimed row that becomes a dead letter without its lease, its budget spent. -/
theorem WellFormed.deadLetter {j j' : ProcessingJob} (hj : WellFormed j) (hs : j.status = .claimed)
    (hs' : j'.status = .deadLetter) (hlease : Unleased j') (hend : j'.completedAt ≠ none)
    (hcount : 0 ≤ j'.deferrals ∧ 0 ≤ j'.continuations ∧ 0 ≤ j'.budgetOffset)
    (hspent : j'.spent = j.spent) (hmax : j'.maxAttempts = j.maxAttempts)
    (hlast : j.maxAttempts ≤ j.spent) : WellFormed j' where
  leased h := by simp [hs'] at h
  unleased _ := hlease
  ended := by simp [hend, hs']
  noCallback h := absurd hs' h
  counters := hcount
  budget := by
    have hb := hj.budget
    simp only [WithinBudget, hs] at hb
    simp only [WithinBudget, hs', hspent, hmax]
    omega

/-- The budget of a claimed row that is well formed. -/
theorem WellFormed.spent_claimed {j : ProcessingJob} (hj : WellFormed j) (hs : j.status = .claimed) :
    1 ≤ j.spent ∧ j.spent ≤ j.maxAttempts := by
  simpa only [WithinBudget, hs] using hj.budget

/-- What the owner of a claim settles is well formed again. -/
theorem SettleStep.wellFormed {s : Settle} {now : Instant} {j j' : ProcessingJob}
    (h : SettleStep now s j j') (hs : j.status = .claimed) (hj : WellFormed j) : WellFormed j' := by
  have hspent := hj.spent_claimed hs
  have hcount := hj.counters
  cases h with
  | complete =>
    exact ⟨nofun, fun _ => ⟨rfl, rfl, rfl⟩, by simp [ProcessingJob.complete],
      fun _ => hj.noCallback (by simp [hs]), hcount, hspent⟩
  | failLast hlast =>
    exact hj.deadLetter hs rfl ⟨rfl, rfl, rfl⟩ (Option.some_ne_none _) hcount rfl rfl hlast
  | failRetry hleft =>
    have h0 : 0 ≤ j.spent := by omega
    exact hj.requeue hs rfl ⟨rfl, rfl, rfl⟩ rfl ⟨rfl, rfl, rfl, rfl⟩ hcount ⟨h0, hleft⟩
  | deferExhausted _ => exact hj
  | defer _ =>
    refine hj.requeue hs rfl ⟨rfl, rfl, rfl⟩ rfl ⟨rfl, rfl, rfl, rfl⟩ ?_ ?_
    · simp only [ProcessingJob.defer]
      omega
    · simp only [ProcessingJob.spent, ProcessingJob.defer] at hspent ⊢
      omega
  | continueExhausted _ => exact hj
  | continued _ =>
    refine hj.requeue hs rfl ⟨rfl, rfl, rfl⟩ rfl ⟨rfl, rfl, rfl, rfl⟩ ?_ ?_
    · simp only [ProcessingJob.spent, ProcessingJob.continued] at hspent ⊢
      omega
    · simp only [ProcessingJob.spent, ProcessingJob.continued] at hspent ⊢
      omega

/-- A pending row that is claimed: the claim counts, and takes at most what is left. -/
theorem WellFormed.claim {j : ProcessingJob} (hj : WellFormed j) (hs : j.status = .pending)
    (r : ClaimRequest) : WellFormed (j.claim r) where
  leased _ := ⟨Option.some_ne_none _, Option.some_ne_none _, Option.some_ne_none _⟩
  unleased h := absurd rfl h
  ended := by
    have hend := hj.ended
    simpa [ProcessingJob.claim, hs] using hend
  noCallback _ := hj.noCallback (by simp [hs])
  counters := hj.counters
  budget := by
    have hb := hj.budget
    simp only [WithinBudget, hs, ProcessingJob.spent] at hb
    simp only [WithinBudget, ProcessingJob.claim, ProcessingJob.spent]
    omega

/-- A dead letter of which only callback columns change. -/
theorem WellFormed.callback {j j' : ProcessingJob} (hj : WellFormed j) (hs : j.status = .deadLetter)
    (hs' : j'.status = .deadLetter)
    (hlease : j'.lockedBy = j.lockedBy ∧ j'.lockedAt = j.lockedAt ∧
      j'.leaseExpiresAt = j.leaseExpiresAt)
    (hend : j'.completedAt = j.completedAt)
    (hcount : j'.deferrals = j.deferrals ∧ j'.continuations = j.continuations ∧
      j'.budgetOffset = j.budgetOffset)
    (hspent : j'.spent = j.spent) (hmax : j'.maxAttempts = j.maxAttempts) : WellFormed j' where
  leased h := by simp [hs'] at h
  unleased _ := by
    rw [hlease.1, hlease.2.1, hlease.2.2]
    exact hj.unleased (by simp [hs])
  ended := by rw [hend, hj.ended, hs, hs']
  noCallback h := absurd hs' h
  counters := by
    rw [hcount.1, hcount.2.1, hcount.2.2]
    exact hj.counters
  budget := by
    have hb := hj.budget
    simp only [WithinBudget, hs] at hb
    simp only [WithinBudget, hs', hspent, hmax, hb]

/-- **One call keeps a well-formed row well formed.** -/
theorem RowStep.wellFormed {c : Call} {j j' : ProcessingJob} (h : RowStep c j j')
    (hmax : 1 ≤ j.maxAttempts) (hj : WellFormed j) : WellFormed j' := by
  have hcount := hj.counters
  cases h with
  | keep => exact hj
  | claim hp => exact hj.claim hp _
  | claimSelected ht => exact hj.claim ht.2 _
  | renew hh =>
    exact ⟨fun hs => ⟨(hj.leased hs).1, (hj.leased hs).2.1, Option.some_ne_none _⟩,
      fun hs => absurd hh.2.1 hs, hj.ended, hj.noCallback, hcount, hj.budget⟩
  | release hh =>
    have hspent := hj.spent_claimed hh.2.1
    refine hj.requeue hh.2.1 rfl ⟨rfl, rfl, rfl⟩ rfl ⟨rfl, rfl, rfl, rfl⟩ hcount ?_
    simp only [ProcessingJob.spent, ProcessingJob.release] at hspent ⊢
    omega
  | settle ho hs => exact hs.wellFormed ho.2.1 hj
  | expireLast he hlast =>
    exact hj.deadLetter he.1 rfl ⟨rfl, rfl, rfl⟩ (Option.some_ne_none _) hcount rfl rfl hlast
  -- the claim is taken away and its attempt stays spent
  | expireRequeue he hleft =>
    have hspent := hj.spent_claimed he.1
    have h0 : 0 ≤ j.spent := by omega
    exact hj.requeue he.1 rfl ⟨rfl, rfl, rfl⟩ rfl ⟨rfl, rfl, rfl, rfl⟩ hcount ⟨h0, hleft⟩
  | replay hd =>
    refine ⟨nofun, fun _ => ⟨rfl, rfl, rfl⟩, by simp [ProcessingJob.replay],
      fun _ => ⟨rfl, rfl, rfl, rfl⟩, ⟨le_rfl, le_rfl, le_rfl⟩, ?_⟩
    simp only [WithinBudget, ProcessingJob.replay, ProcessingJob.spent]
    omega
  | claimCallback hs =>
    exact hj.callback hs.1.1 hs.1.1 ⟨rfl, rfl, rfl⟩ rfl ⟨rfl, rfl, rfl⟩ rfl rfl
  | notified hl => exact hj.callback hl.2.1 hl.2.1 ⟨rfl, rfl, rfl⟩ rfl ⟨rfl, rfl, rfl⟩ rfl rfl
  | deferCallback hl =>
    exact hj.callback hl.2.1 hl.2.1 ⟨rfl, rfl, rfl⟩ rfl ⟨rfl, rfl, rfl⟩ rfl rfl
  | releaseCallback hl =>
    exact hj.callback hl.2.1 hl.2.1 ⟨rfl, rfl, rfl⟩ rfl ⟨rfl, rfl, rfl⟩ rfl rfl

/-! ## Every run -/

/-- One call as a step of a run: any call, at any time. -/
def Call.step (db : Db) (c : Call) : Option Db := some (c.run db)

/-- **The job-row invariant holds in every reachable state**: whatever calls were made, with
whatever arguments, a row whose ceiling is at least one is well formed. -/
theorem wellFormed_of_reaches {db : Db} (h : Reaches Call.step (fun _ _ => True) Db.empty db) :
    ∀ j ∈ db.jobs.rows, 1 ≤ j.maxAttempts → WellFormed j := by
  refine h.invariant (fun db => ∀ j ∈ db.jobs.rows, 1 ≤ j.maxAttempts → WellFormed j)
    (by simp [Db.empty, Table.empty]) ?_
  intro db c db' _ ih _ hstep j' hj' hmax
  obtain rfl := Option.some.inj hstep
  rcases run_get c (Table.get_key hj') with ⟨-, hnew⟩ | ⟨j, hj, hrow⟩
  · exact wellFormed_newRow hnew hmax
  · have hmax' : 1 ≤ j.maxAttempts := hrow.maxAttempts_eq ▸ hmax
    exact hrow.wellFormed hmax' (ih j (Table.mem_of_get hj) hmax')

/-- The invariant of the row of a job that was claimed once. -/
theorem wellFormed_of_reaches_claimed :
    ∃ db : Db, (∃ j ∈ db.jobs.rows, j.status = .claimed) ∧
      ∀ j ∈ db.jobs.rows, 1 ≤ j.maxAttempts → WellFormed j :=
  ⟨(sampleClaim "worker" 1 "attempt").run ((sampleInsert 3).run Db.empty), by decide,
    wellFormed_of_reaches ((Reaches.refl.tail trivial rfl).tail trivial rfl)⟩

end Jasil.Jobs
