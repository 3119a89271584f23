import Jasil.Fencing.GrantLog
import Jasil.Jobs.RowInvariant

/-! # The record of every claim
A claim of a job is the step in which its row goes from `pending` to `claimed`. The database keeps
no identity of it: the attempt number goes back with a release and starts again with a replay. So an
onlooker writes every claim down as it happens, one `GrantLog` for each job, knowing nothing of the
calls but the row before and after (`observeRow`).

* **`Recorded`**: the tables together with that record.
* **`InSync`**: the row's `attempts` fits the record, and a claimed row is under the last claim
  recorded.

`InSync` holds in every state any calls can reach (`inSync_of_reaches`); what the runner guarantees
besides only enters later, where a call has to be matched with the claim it is made for. -/

namespace Jasil.Jobs

/-- Who holds a claim, as the row and the attempt rows show it at the claim. -/
structure Claimant where
  lockedBy : Option WorkerId
  lockedAt : Option Instant
  /-- The attempt rows of the job that were added in the step of the claim. -/
  opened : List AttemptId
  deriving DecidableEq, Repr

/-- Every claim of every job. -/
abbrev Ledger := JobId → GrantLog Claimant

/-- Whether the call returns claims it was given to `pending` unspent. -/
def Call.isRelease : Call → Bool
  | .release .. => true
  | _ => false

/-- The claims of one job after a call, from its row before and after. -/
def observeRow (isRelease : Bool) (opened : List AttemptId) :
    Option ProcessingJob → Option ProcessingJob → GrantLog Claimant → GrantLog Claimant
  | some j, some j', log =>
    match j.status, j'.status with
    | .pending, .claimed => log.issue j'.attempts ⟨j'.lockedBy, j'.lockedAt, opened⟩
    | .deadLetter, .pending => log.advance
    | .claimed, .pending =>
      match isRelease, log.last? with
      | true, some g => log.revoke g.serial
      | _, _ => log
    | _, _ => log
  | _, _, log => log

/-- The attempt rows of a job that a call added. -/
def openedRows (db db' : Db) (id : JobId) : List AttemptId :=
  ((Table.added db.attempts db'.attempts).filter (·.jobId = id)).map JobAttempt.id

/-- The tables with the record of every claim made so far. -/
structure Recorded where
  db : Db
  claims : Ledger

namespace Recorded

/-- A fresh installation. -/
def init : Recorded := ⟨Db.empty, fun _ => .empty⟩

/-- There is no job yet. -/
@[simp] theorem get_init (id : JobId) : init.db.jobs.get id = none := rfl

/-- Make a call, and write down what happened to each row. -/
def after (s : Recorded) (c : Call) : Recorded where
  db := c.run s.db
  claims id := observeRow c.isRelease (openedRows s.db (c.run s.db) id) (s.db.jobs.get id)
    ((c.run s.db).jobs.get id) (s.claims id)

/-- One call as a step of a run. -/
def step (s : Recorded) (c : Call) : Option Recorded := some (s.after c)

/-- **Claim number `k` of the job is the live claim of its row**: the row is claimed, and was last
claimed by claim `k`. -/
def Live (s : Recorded) (id : JobId) (k : ℕ) : Prop :=
  ∃ j ∈ s.db.jobs.get id, j.status = .claimed ∧ ∃ g ∈ (s.claims id).last?, g.serial = k

instance (s : Recorded) (id : JobId) (k : ℕ) : Decidable (s.Live id k) :=
  inferInstanceAs (Decidable (∃ _ ∈ _, _ ∧ ∃ _ ∈ _, _))

end Recorded

/-! ## The counter of the row and the record -/

/-- **The row and the record of its claims agree.** -/
def InSync (row : Option ProcessingJob) (log : GrantLog Claimant) : Prop :=
  match row with
  | none => log = .empty
  | some j =>
    log.Tracks j.attempts ∧
      (j.status = .claimed → ∃ g ∈ log.last?, log.Standing g ∧ g.token = j.attempts ∧
        g.holder.lockedBy = j.lockedBy)

/-- The log of a row is numbered. -/
theorem InSync.numbered {row : Option ProcessingJob} {log : GrantLog Claimant}
    (h : InSync row log) : log.Numbered := by
  cases row with
  | none =>
    obtain rfl : log = .empty := h
    exact GrantLog.numbered_empty
  | some j => exact h.1.numbered

/-- **What the onlooker can see happen** to a row and its record, for a call that did (or did not)
return claims. -/
inductive Observed (isRelease : Bool) (opened : List AttemptId) :
    ProcessingJob → ProcessingJob → GrantLog Claimant → GrantLog Claimant → Prop
  /-- The claim of the row, if it is under one, stays or ends; the record stays as it is. -/
  | same {j j' : ProcessingJob} {log : GrantLog Claimant} :
      j'.attempts = j.attempts →
        (j'.status = .claimed → j.status = .claimed ∧ j'.lockedBy = j.lockedBy) →
          Observed isRelease opened j j' log log
  | claimed {j j' : ProcessingJob} {log : GrantLog Claimant} :
      j.status = .pending → j'.status = .claimed → j'.attempts = j.attempts + 1 →
        Observed isRelease opened j j' log
          (log.issue j'.attempts ⟨j'.lockedBy, j'.lockedAt, opened⟩)
  | released {j j' : ProcessingJob} {log : GrantLog Claimant} {g : Grant Claimant} :
      isRelease = true → j.status = .claimed → j'.status = .pending →
        j'.attempts = j.attempts - 1 → log.last? = some g →
          Observed isRelease opened j j' log (log.revoke g.serial)
  | replayed {j j' : ProcessingJob} {log : GrantLog Claimant} :
      j.status = .deadLetter → j'.status = .pending → j'.attempts = 0 →
        Observed isRelease opened j j' log log.advance

/-- A row whose status stays tells the onlooker nothing. -/
theorem observeRow_of_status {isRelease : Bool} {opened : List AttemptId} {j j' : ProcessingJob}
    {log : GrantLog Claimant} (hs : j'.status = j.status) :
    observeRow isRelease opened (some j) (some j') log = log := by
  cases h : j.status <;> simp [observeRow, hs, h]

/-- A write that leaves the claim of a row is none that the onlooker sees. -/
theorem Observed.of_status {isRelease : Bool} {opened : List AttemptId} {j j' : ProcessingJob}
    {log : GrantLog Claimant} (hs : j'.status = j.status) (hatt : j'.attempts = j.attempts)
    (hlock : j'.lockedBy = j.lockedBy) :
    Observed isRelease opened j j' log (observeRow isRelease opened (some j) (some j') log) := by
  rw [observeRow_of_status hs]
  exact .same hatt fun h => ⟨hs ▸ h, hlock⟩

/-- **Every row step is one of those.** -/
theorem InSync.observed {c : Call} {j j' : ProcessingJob} {log : GrantLog Claimant}
    (h : InSync (some j) log) (hrow : RowStep c j j') (opened : List AttemptId) :
    Observed c.isRelease opened j j' log
      (observeRow c.isRelease opened (some j) (some j') log) := by
  cases hrow with
  | keep => exact .of_status rfl rfl rfl
  | claim hp =>
    simp only [observeRow, hp]
    exact .claimed hp rfl rfl
  | claimSelected ht =>
    simp only [observeRow, ht.2]
    exact .claimed ht.2 rfl rfl
  | renew _ => exact .of_status rfl rfl rfl
  | release hh =>
    obtain ⟨g, hg, -⟩ := h.2 hh.2.1
    simp only [observeRow, hh.2.1, ProcessingJob.release, Call.isRelease, Option.mem_def.mp hg]
    exact .released rfl hh.2.1 rfl rfl hg
  | settle ho hset =>
    have hs := ho.2.1
    cases hset <;> simp only [observeRow, hs, Call.isRelease]
    case deferExhausted | continueExhausted => exact .same rfl fun _ => ⟨hs, rfl⟩
    all_goals exact .same rfl (by rintro ⟨⟩)
  | expireLast he _ =>
    simp only [observeRow, he.1]
    exact .same rfl (by rintro ⟨⟩)
  | expireRequeue he _ =>
    simp only [observeRow, he.1, Call.isRelease]
    exact .same rfl (by rintro ⟨⟩)
  | replay hd =>
    simp only [observeRow, hd]
    exact .replayed hd rfl rfl
  | claimCallback _ => exact .of_status rfl rfl rfl
  | notified _ => exact .of_status rfl rfl rfl
  | deferCallback _ => exact .of_status rfl rfl rfl
  | releaseCallback _ => exact .of_status rfl rfl rfl

/-- The row and the record stay in step through whatever the onlooker sees. -/
theorem Observed.inSync {isRelease : Bool} {opened : List AttemptId} {j j' : ProcessingJob}
    {log log' : GrantLog Claimant} (ho : Observed isRelease opened j j' log log')
    (h : InSync (some j) log) : InSync (some j') log' := by
  cases ho with
  | same hatt hclaimed =>
    refine ⟨hatt ▸ h.1, fun hs' => ?_⟩
    obtain ⟨hs, hl⟩ := hclaimed hs'
    rw [hatt, hl]
    exact h.2 hs
  | claimed hs hs' hatt =>
    refine ⟨hatt ▸ h.1.issue _, fun _ => ⟨_, log.last?_issue _ _, ⟨rfl, rfl⟩, rfl, rfl⟩⟩
  | released hrel hs hs' hatt hlast =>
    obtain ⟨g, hg, hstand, htok, -⟩ := h.2 hs
    obtain rfl := Option.some.inj (hlast.symm.trans hg)
    refine ⟨?_, fun h => by simp [hs'] at h⟩
    rw [hatt]
    exact h.1.revoke (GrantLog.mem_standing.mpr ⟨GrantLog.last?_mem hg, hstand⟩) htok
  | replayed hs hs' hatt => exact ⟨hatt ▸ h.1.advance, fun h => by simp [hs'] at h⟩

/-! ## Every run -/

/-- The record of a row that a call inserts, or does not touch, starts empty. -/
theorem inSync_new {c : Call} {j : ProcessingJob} (h : c.newRow = some j) :
    InSync (some j) .empty := by
  cases c with
  | insert event subscriberId queue maxAttempts now availableAt jobId =>
    obtain rfl := Option.some.inj h
    exact ⟨GrantLog.tracks_empty, nofun⟩
  | _ => exact nomatch h

/-- One call keeps every row in step with its record. -/
theorem Recorded.inSync_after {s : Recorded} {c : Call}
    (h : ∀ id, InSync (s.db.jobs.get id) (s.claims id)) (id : JobId) :
    InSync ((s.after c).db.jobs.get id) ((s.after c).claims id) := by
  have hid := h id
  simp only [Recorded.after]
  cases hj : s.db.jobs.get id with
  | none =>
    rw [hj] at hid
    have hlog : s.claims id = .empty := hid
    rw [hlog]
    cases hj' : (c.run s.db).jobs.get id with
    | none => rfl
    | some j' => exact inSync_new (run_get_none c hj hj')
  | some j =>
    rw [hj] at hid
    obtain ⟨j', hj', hrow⟩ := run_get_some c hj
    rw [hj']
    exact (hid.observed hrow _).inSync hid

/-- **In every reachable state every row is in step with the record of its claims.** -/
theorem Recorded.inSync_of_reaches {ok : Recorded → Call → Prop} {s : Recorded}
    (h : Reaches Recorded.step ok Recorded.init s) (id : JobId) :
    InSync (s.db.jobs.get id) (s.claims id) := by
  refine h.invariant (fun s => ∀ id, InSync (s.db.jobs.get id) (s.claims id)) (fun _ => rfl) ?_ id
  intro s c s' _ ih _ hstep
  obtain rfl := Option.some.inj hstep
  exact Recorded.inSync_after ih

end Jasil.Jobs
