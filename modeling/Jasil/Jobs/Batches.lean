import Jasil.Jobs.Runner

/-! # A batch is in the worker's custody
The two threads of a worker, seen as one custody of leased jobs: `Worker.custody` maps each state to the
abstract machine, in which a renewal, an abandonment or a release of either thread is the same move.

* **`Worker.At`**: what holds where the runner stands, its own lock and the running job included;
* **`Worker.Inv`**: the custody's invariant and that;
* **`Worker.step_inv`**: every step of either thread makes moves of the custody, or none.
-/

namespace Jasil.Jobs

open Relation (ReflTransGen)

/-! ## The view -/

/-- The jobs a thread has taken from the record and not yet released. -/
def RenewPc.owed : RenewPc → Multiset (Lease JobId ℤ)
  | .close batch _ _ waiting | .release batch waiting => (leasesOf batch waiting : Multiset _)
  | _ => 0

/-- What a renewal has taken when it goes on. -/
def Renewal.owed : Renewal → Multiset (Lease JobId ℤ)
  | .going pc => pc.owed
  | _ => 0

/-- The thread has the lock. -/
def RenewPc.locking : RenewPc → Bool
  | .roundTrip | .answered _ | .failed => true
  | _ => false

/-- A renewal that goes on may have the lock. -/
def Renewal.locking : Renewal → Bool
  | .going pc => pc.locking
  | _ => false

/-- The ids the database has renewed in this call. -/
def RenewPc.ids : RenewPc → List JobId
  | .answered ids => ids
  | _ => []

/-- A thread that has an answer still has the lock. -/
theorem RenewPc.locking_of_mem_ids {pc : RenewPc} {id : JobId} (h : id ∈ pc.ids) :
    pc.locking = true := by
  cases pc with
  | answered ids => rfl
  | _ => exact absurd h List.not_mem_nil

/-- What a renewal was answered. -/
def Renewal.ids : Renewal → List JobId
  | .going pc => pc.ids
  | .returned ids => ids
  | .raised => []

/-- What the runner has taken. -/
def RunnerPc.owed : RunnerPc → Multiset (Lease JobId ℤ)
  | .stillHeld _ _ pc => pc.owed
  | .release batch waiting => (leasesOf batch waiting : Multiset _)
  | _ => 0

/-- The turn of a job is from the moment the runner knows that it may run it until `finish`. -/
def RunnerPc.stage : RunnerPc → Stage JobId
  | .turn 0 => .fresh
  | .begin _ job | .markStarted _ job _ | .execute _ job _ | .handle _ job _
  | .finalize _ job _ _ | .write _ job _ _ | .finish _ job _ _ => .turn job.id
  | _ => .between

/-- No call of `run_once` is under way. -/
def RunnerPc.isIdle : RunnerPc → Bool
  | .idle => true
  | _ => false

/-- No call is under way in `idle` only. -/
theorem RunnerPc.eq_idle {pc : RunnerPc} (h : pc.isIdle = true) : pc = .idle := by
  cases pc with
  | idle => rfl
  | _ => exact nomatch h

/-- `{job_id: attempt}` of a batch. -/
def attemptsOf (snapshots : List ClaimedJob) : JobAttempts :=
  snapshots.map fun job => (job.id, job.attempts)

namespace Worker

/-- What the heartbeat has taken. -/
def heartbeatOwed (w : Worker) : Multiset (Lease JobId ℤ) := (w.heartbeat.map RenewPc.owed).getD 0

/-- The custody for a stage and what is owed. -/
def view (w : Worker) (stage : Stage JobId) (owed : Multiset (Lease JobId ℤ)) :
    Custody JobId ℤ where
  batch := w.batch
  items := attemptsOf w.snapshots
  held := w.keeper.held
  stage := stage
  owed := owed
  log := w.log

/-- **The custody a worker has of its batch.** -/
def custody (w : Worker) : Custody JobId ℤ :=
  w.view w.runner.stage (w.heartbeatOwed + w.runner.owed)

/-! ## What a step of a renewal can do -/

/-- Every step of `renew`, with the guard of each. -/
inductive RenewMove (thread : Thread) (w : Worker) : RenewPc → Renewal → Worker → Prop
  /-- Only the tables change, if anything. -/
  | rest {pc : RenewPc} {renewal : Renewal} {db : Db} :
      pc.owed = renewal.owed → pc.locking = false → renewal.locking = false → renewal.ids = [] →
        RenewMove thread w pc renewal { w with db := db }
  | abandoned {renewal : Renewal} {a : LeaseKeeper.Abandonment} {keeper : LeaseKeeper}
      {maxRuntimeSeconds monotonic : ℚ} :
      w.lock = none → w.keeper.abandonIfOverdue maxRuntimeSeconds monotonic = (some a, keeper) →
        renewal.owed = (leasesOf w.batch a.waiting : Multiset _) → renewal.locking = false →
        renewal.ids = [] → RenewMove thread w .abandon renewal { w with keeper := keeper }
  | released {batch : ℕ} {waiting : JobAttempts} {db : Db} :
      waiting ≠ [] → RenewMove thread w (.release batch waiting) (.going .lock)
        { w.record (.released batch waiting) with db := db }
  | acquired : w.lock = none →
      RenewMove thread w .lock (.going .roundTrip) { w with lock := some thread }
  | lost : RenewMove thread w .roundTrip (.going .failed) w
  | renewed {ids : List JobId} {db : Db} :
      (∀ id ∈ ids, id ∈ w.keeper.held.map Prod.fst) →
        RenewMove thread w .roundTrip (.going (.answered ids))
          { w.record (.renewed w.batch ids) with db := db }
  | answered {ids : List JobId} (monotonic : ℚ) :
      RenewMove thread w (.answered ids) (.returned ids)
        { w with keeper := w.keeper.renewed ids monotonic, lock := none }
  | fenced (leaseSeconds : ℤ) (intervalSeconds monotonic : ℚ) :
      RenewMove thread w .failed .raised
        { w with
          keeper := w.keeper.fenceIfSilent leaseSeconds intervalSeconds monotonic
          lock := none }

/-- The database renews no job that was not asked for. -/
theorem mem_renewLeases {db : Db} {jobAttempts : JobAttempts} {workerId : WorkerId}
    {leaseSeconds : ℤ} {now : Instant} {id : JobId}
    (h : id ∈ (renewLeases db jobAttempts workerId leaseSeconds now).1) :
    id ∈ jobAttempts.map Prod.fst := by
  rw [renewLeases] at h
  split at h
  · exact absurd h List.not_mem_nil
  · obtain ⟨j, hj, rfl⟩ := List.mem_map.mp h
    have hclaim := claimsMatch_iff.mp (Table.mem_select.mp hj).2.1
    exact List.mem_map_of_mem hclaim

/-- A release does nothing, or changes the tables and is recorded. -/
theorem releaseJobs_cases {cfg : RunnerConfig} {w : Worker} {r : Readings} {batch : ℕ}
    {waiting : JobAttempts} :
    (waiting = [] ∧ w.releaseJobs cfg r batch waiting = w) ∨
      ∃ db, waiting ≠ [] ∧
        w.releaseJobs cfg r batch waiting = { w.record (.released batch waiting) with db := db } := by
  rw [releaseJobs]
  split
  · rename_i he
    exact Or.inl ⟨List.isEmpty_iff.mp he, rfl⟩
  · rename_i he
    exact Or.inr ⟨_, fun hnil => he (List.isEmpty_iff.mpr hnil), rfl⟩

/-- A lock that nobody has is free. -/
theorem lock_none {w : Worker} (h : ¬ w.lock.isSome = true) : w.lock = none :=
  Option.not_isSome_iff_eq_none.mp h

/-- **The step of a renewal is one of the moves.** -/
theorem renewStep_move {cfg : RunnerConfig} {thread : Thread} {w w' : Worker} {r : Readings}
    {pc : RenewPc} {renewal : Renewal} (h : w.renewStep cfg thread r pc = some (renewal, w')) :
    RenewMove thread w pc renewal w' := by
  cases pc with
  | abandon =>
    rw [renewStep] at h
    split at h
    · exact nomatch h
    · rename_i hlock
      split at h
      · obtain ⟨rfl, rfl⟩ := Prod.mk.inj (Option.some.inj h)
        exact .rest rfl rfl rfl rfl
      · rename_i a keeper ha
        dsimp only at h
        split at h
        · split at h
          · obtain ⟨rfl, rfl⟩ := Prod.mk.inj (Option.some.inj h)
            exact .abandoned (lock_none hlock) ha rfl rfl rfl
          · obtain ⟨rfl, rfl⟩ := Prod.mk.inj (Option.some.inj h)
            exact .abandoned (lock_none hlock) ha rfl rfl rfl
        · obtain ⟨rfl, rfl⟩ := Prod.mk.inj (Option.some.inj h)
          exact .abandoned (lock_none hlock) ha rfl rfl rfl
  | close batch jobId attempt waiting =>
    obtain ⟨rfl, rfl⟩ := Prod.mk.inj (Option.some.inj h)
    exact .rest rfl rfl rfl rfl
  | release batch waiting =>
    obtain ⟨rfl, rfl⟩ := Prod.mk.inj (Option.some.inj h)
    -- with nobody waiting no statement is sent
    rcases @releaseJobs_cases cfg w r batch waiting with ⟨rfl, he⟩ | ⟨db, hne, he⟩
    · rw [he]
      exact .rest rfl rfl rfl rfl
    · rw [he]
      exact .released hne
  | lock =>
    rw [renewStep] at h
    split at h
    · exact nomatch h
    · rename_i hlock
      split at h
      · obtain ⟨rfl, rfl⟩ := Prod.mk.inj (Option.some.inj h)
        exact .rest rfl rfl rfl rfl
      · obtain ⟨rfl, rfl⟩ := Prod.mk.inj (Option.some.inj h)
        exact .acquired (lock_none hlock)
  | roundTrip =>
    rw [renewStep] at h
    split at h
    · obtain ⟨rfl, rfl⟩ := Prod.mk.inj (Option.some.inj h)
      exact .lost
    · obtain ⟨rfl, rfl⟩ := Prod.mk.inj (Option.some.inj h)
      exact .renewed fun id hid => mem_renewLeases hid
  | answered ids =>
    obtain ⟨rfl, rfl⟩ := Prod.mk.inj (Option.some.inj h)
    exact .answered r.monotonic
  | failed =>
    obtain ⟨rfl, rfl⟩ := Prod.mk.inj (Option.some.inj h)
    exact .fenced cfg.leaseSeconds cfg.intervalSeconds r.monotonic

/-! ## A step of a renewal in the custody -/

variable {thread : Thread} {w w' : Worker} {pc : RenewPc} {renewal : Renewal}

/-- **A renewal's step is moves of the custody**: what it takes it takes while a job runs, so never
before the first turn. -/
theorem RenewMove.steps (h : RenewMove thread w pc renewal w') (stage : Stage JobId)
    (hrun : ∀ id, w.keeper.runningId = some id → stage = .turn id)
    (rest : Multiset (Lease JobId ℤ)) :
    ReflTransGen Custody.Step (w.view stage (rest + pc.owed))
      (w'.view stage (rest + renewal.owed)) := by
  cases h with
  | rest howed _ _ _ => exact howed ▸ .refl
  | @abandoned _ a keeper _ _ _ ha howed _ _ =>
    obtain ⟨hid, -, kept, hkept, hperm, hwaiting⟩ := LeaseKeeper.abandonIfOverdue_some ha
    have hstage := hrun _ hid
    have hnone : rest + RenewPc.abandon.owed = rest := add_zero rest
    rw [howed, hnone]
    -- the running job is lost first, then what waits is taken
    refine .tail (.single (.lose hkept)) ?_
    refine Custody.Step.take (c := { w.view stage rest with held := kept }) ?_ hperm ?_
    · rw [hstage]
      exact nofun
    · intro p hp he
      have hp₁ : a.jobId = p.1 := Stage.turn.inj (hstage.symm.trans he)
      exact hwaiting p hp (hp₁ ▸ hid)
  | released hne =>
    have hnone : rest + (Renewal.going .lock).owed = rest := add_zero rest
    rw [hnone]
    exact .single (Custody.Step.release hne rfl)
  | acquired _ | lost => exact .refl
  | renewed hids => exact .single (.renew _)
  | @answered ids monotonic =>
    have hsub : (w.keeper.renewed ids monotonic).held.Sublist w.keeper.held := by
      rw [(w.keeper.held_renewed ids monotonic).1]
      exact List.filter_sublist
    exact .single (Custody.Step.lose hsub)
  | fenced leaseSeconds intervalSeconds monotonic =>
    have hheld := (w.keeper.held_fenceIfSilent leaseSeconds intervalSeconds monotonic).1
    rw [view, view]
    exact hheld ▸ .refl

/-- **What a renewal's step leaves alone**, for the runner when it is the heartbeat's. -/
structure RenewFrame (thread : Thread) (w : Worker) (renewal : Renewal) (w' : Worker) : Prop where
  runner : w'.runner = w.runner
  heartbeat : w'.heartbeat = w.heartbeat
  batch : w'.batch = w.batch
  snapshots : w'.snapshots = w.snapshots
  runningId : w'.keeper.runningId = w.keeper.runningId
  held : ∀ p ∈ w'.keeper.held, p ∈ w.keeper.held
  locking : renewal.locking = true → w'.lock = some thread
  /-- While the other thread has the lock it sees no change. -/
  other : ∀ t ≠ thread, w.lock = some t → w'.lock = some t ∧ w'.keeper = w.keeper
  log : w'.log = w.log ∨ ∃ e, e.isTurn = false ∧ w'.log = w.log ++ [e]

/-- **What a renewal's step leaves alone.** -/
theorem RenewMove.frame (h : RenewMove thread w pc renewal w')
    (hlock : pc.locking = true → w.lock = some thread) : RenewFrame thread w renewal w' := by
  -- a thread in its locked section is the only one there
  have hmine : pc.locking = true → ∀ t ≠ thread, w.lock ≠ some t := by
    intro hl t ht he
    exact ht (Option.some.inj (he.symm.trans (hlock hl)))
  cases h with
  | rest _ _ hl _ =>
    exact ⟨rfl, rfl, rfl, rfl, rfl, fun _ hp => hp, (fun h => nomatch hl.symm.trans h),
      fun _ _ he => ⟨he, rfl⟩, Or.inl rfl⟩
  | abandoned hfree ha _ hl _ =>
    obtain ⟨-, hid, kept, hkept, hperm, -⟩ := LeaseKeeper.abandonIfOverdue_some ha
    refine ⟨rfl, rfl, rfl, rfl, hid, fun p hp => ?_, (fun h => nomatch hl.symm.trans h), ?_,
      Or.inl rfl⟩
    · exact hkept.subset (hperm.subset (List.mem_append_left _ hp))
    · exact fun _ _ he => nomatch hfree.symm.trans he
  | released _ =>
    exact ⟨rfl, rfl, rfl, rfl, rfl, fun _ hp => hp, nofun, fun _ _ he => ⟨he, rfl⟩,
      Or.inr ⟨_, rfl, rfl⟩⟩
  | acquired hfree =>
    exact ⟨rfl, rfl, rfl, rfl, rfl, fun _ hp => hp, fun _ => rfl,
      (fun _ _ he => nomatch hfree.symm.trans he), Or.inl rfl⟩
  | lost =>
    exact ⟨rfl, rfl, rfl, rfl, rfl, fun _ hp => hp, fun _ => hlock rfl, fun _ _ he => ⟨he, rfl⟩,
      Or.inl rfl⟩
  | renewed _ =>
    exact ⟨rfl, rfl, rfl, rfl, rfl, fun _ hp => hp, fun _ => hlock rfl, fun _ _ he => ⟨he, rfl⟩,
      Or.inr ⟨_, rfl, rfl⟩⟩
  | @answered ids monotonic =>
    obtain ⟨hheld, hid⟩ := w.keeper.held_renewed ids monotonic
    refine ⟨rfl, rfl, rfl, rfl, hid, fun p hp => ?_, nofun,
      fun t ht he => absurd he (hmine rfl t ht), Or.inl rfl⟩
    exact List.mem_of_mem_filter (hheld ▸ hp)
  | fenced leaseSeconds intervalSeconds monotonic =>
    obtain ⟨hheld, hid⟩ :=
      w.keeper.held_fenceIfSilent leaseSeconds intervalSeconds monotonic
    exact ⟨rfl, rfl, rfl, rfl, hid, fun p hp => hheld ▸ hp, nofun,
      fun t ht he => absurd he (hmine rfl t ht), Or.inl rfl⟩

/-- The ids are held, and a renewal named them after the last turn. -/
def Named (w : Worker) (ids : List JobId) : Prop :=
  ∀ id ∈ ids, id ∈ w.keeper.held.map Prod.fst ∧ Confirmed w.log w.batch id

/-- **Between two turns the ids of a renewal are held and confirmed.** -/
theorem RenewMove.named (h : RenewMove thread w pc renewal w') (hids : w.Named pc.ids)
    (hended : ∀ id, .started w.batch id ∈ w.log → .ended w.batch id ∈ w.log) :
    w'.Named renewal.ids := by
  cases h with
  | rest _ _ _ hnil | abandoned _ _ _ _ hnil =>
    intro id hid
    rw [hnil] at hid
    exact absurd hid List.not_mem_nil
  | renewed hheld => exact fun id hid => ⟨hheld id hid, confirmed_renewed hended hid⟩
  | @answered ids monotonic =>
    intro id hid
    obtain ⟨hm, hconf⟩ := hids id hid
    obtain ⟨p, hp, rfl⟩ := List.mem_map.mp hm
    refine ⟨List.mem_map_of_mem ?_, hconf⟩
    rw [(w.keeper.held_renewed ids monotonic).1]
    exact List.mem_filter.mpr ⟨hp, decide_eq_true hid⟩
  | released _ | acquired _ | lost | fenced _ _ _ =>
    exact fun _ hid => absurd hid List.not_mem_nil

/-- What a log does not show to start it does not start through an event that is no turn. -/
theorem RenewFrame.started (h : RenewFrame thread w renewal w') {batch : ℕ} {id : JobId}
    (hs : BatchEvent.started batch id ∈ w'.log) : BatchEvent.started batch id ∈ w.log := by
  rcases h.log with hl | ⟨e, he, hl⟩
  · exact hl ▸ hs
  · rw [hl] at hs
    refine Custody.started_of_concat hs ?_
    rintro b i rfl
    exact nomatch he

/-- A confirmation stays one. -/
theorem RenewFrame.confirmed (h : RenewFrame thread w renewal w') {batch : ℕ} {id : JobId}
    (hc : Confirmed w.log batch id) : Confirmed w'.log batch id := by
  rcases h.log with hl | ⟨e, he, hl⟩
  · exact hl ▸ hc
  · exact hl ▸ hc.concat he

/-! ## The invariant -/

/-- **What holds where the runner stands**: whether a job is running, and what the next steps rely on. -/
def At (w : Worker) : RunnerPc → Prop
  | .idle | .backfill _ | .claim _ => w.keeper.runningId = none ∧ w.keeper.held = []
  | .hold snapshots =>
    w.keeper.runningId = none ∧ w.keeper.held = [] ∧ ((attemptsOf snapshots).map Prod.fst).Nodup
  | .stillHeld _ _ pc =>
    w.keeper.runningId = none ∧ (pc.locking = true → w.lock = some .runner) ∧ w.Named pc.ids
  | .begin _ job => w.keeper.runningId = none ∧ .started w.batch job.id ∉ w.log
  | .markStarted _ job _ | .execute _ job _ =>
    w.keeper.runningId = some job.id ∧ .started w.batch job.id ∉ w.log
  | .handle _ job _ | .finalize _ job _ _ | .write _ job _ _ | .finish _ job _ _ =>
    w.keeper.runningId = some job.id
  | .turn _ | .drop _ _ | .ran _ _ _ | .takeWaiting | .release _ _ | .clear =>
    w.keeper.runningId = none

/-- The heartbeat has the lock where it should. -/
def HeartbeatLock (w : Worker) : Prop :=
  ∀ pc, w.heartbeat = some pc → pc.locking = true → w.lock = some .heartbeat

/-- **What holds in every state of a worker**: the custody's invariant, what the runner relies on, and that
the heartbeat has the lock where it should. -/
structure Inv (w : Worker) : Prop where
  custody : w.custody.Inv
  runner : w.At w.runner
  heartbeat : w.HeartbeatLock

/-- A running job is the one whose turn it is. -/
theorem At.stage {w : Worker} {pc : RunnerPc} (h : w.At pc) {id : JobId}
    (hid : w.keeper.runningId = some id) : pc.stage = .turn id := by
  cases pc with
  | idle | backfill _ | claim _ | hold _ | stillHeld _ _ _ | begin _ _ => exact nomatch h.1.symm.trans hid
  | markStarted _ job _ | execute _ job _ =>
    obtain rfl := Option.some.inj (h.1.symm.trans hid)
    rfl
  | handle _ job _ | finalize _ job _ _ | write _ job _ _ | finish _ job _ _ =>
    obtain rfl := Option.some.inj (h.symm.trans hid)
    rfl
  | turn _ | drop _ _ | ran _ _ _ | takeWaiting | release _ _ | clear =>
    exact nomatch h.symm.trans hid

/-- **The heartbeat does not disturb the runner**, whose lock keeps it away from a renewal under way. -/
theorem RenewFrame.at_runner (h : RenewFrame .heartbeat w renewal w') {pc : RunnerPc}
    (hat : w.At pc) : w'.At pc := by
  have hstarted : ∀ id, .started w.batch id ∉ w.log → .started w'.batch id ∉ w'.log := by
    intro id hs hs'
    rw [h.batch] at hs'
    exact hs (h.started hs')
  have hheld : w.keeper.held = [] → w'.keeper.held = [] := by
    intro hnil
    refine List.eq_nil_iff_forall_not_mem.mpr fun p hp => ?_
    exact absurd (hnil ▸ h.held p hp) List.not_mem_nil
  have hrun := h.runningId
  cases pc with
  | idle | backfill _ | claim _ => exact ⟨hrun.trans hat.1, hheld hat.2⟩
  | hold _ => exact ⟨hrun.trans hat.1, hheld hat.2.1, hat.2.2⟩
  | stillHeld index job pc =>
    obtain ⟨hr, hlock, hnamed⟩ := hat
    refine ⟨hrun.trans hr, fun hl => (h.other .runner nofun (hlock hl)).1, ?_⟩
    intro id hid
    obtain ⟨hm, hconf⟩ := hnamed id hid
    have hmine := hlock (RenewPc.locking_of_mem_ids hid)
    rw [(h.other .runner nofun hmine).2, h.batch]
    exact ⟨hm, h.confirmed hconf⟩
  | begin _ job | markStarted _ job _ | execute _ job _ =>
    exact ⟨hrun.trans hat.1, hstarted _ hat.2⟩
  | handle _ _ _ | finalize _ _ _ _ | write _ _ _ _ | finish _ _ _ _ | turn _ | drop _ _
  | ran _ _ _ | takeWaiting | release _ _ | clear => exact hrun.trans hat

/-! ## Every step keeps it -/

/-- A section under the lock runs when the lock is free. -/
theorem locked_some {after : Worker} (h : w.locked after = some w') :
    w.lock = none ∧ after = w' := by
  rw [locked] at h
  split at h
  · exact nomatch h
  · rename_i hlock
    exact ⟨lock_none hlock, Option.some.inj h⟩

/-- The invariant in terms of where the runner stands. -/
theorem Inv.of_view {pc : RunnerPc} (hpc : w.runner = pc)
    (hc : (w.view pc.stage (w.heartbeatOwed + pc.owed)).Inv) (hat : w.At pc)
    (hb : w.HeartbeatLock) : w.Inv := by
  subst hpc
  exact ⟨hc, hat, hb⟩

/-- The custody's invariant at the point where the runner stands. -/
theorem Inv.view {pc : RunnerPc} (h : w.Inv) (hpc : w.runner = pc) :
    (w.view pc.stage (w.heartbeatOwed + pc.owed)).Inv := by
  subst hpc
  exact h.custody

/-- What holds where the runner stands. -/
theorem Inv.at {pc : RunnerPc} (h : w.Inv) (hpc : w.runner = pc) : w.At pc := hpc ▸ h.runner

/-- A claim's batch names each job once. -/
theorem nodup_claimJobs {db db' : Db} {r : ClaimRequest} {mint : JobId → AttemptId}
    {claimed : List ProcessingJob} (h : claimJobs db r mint = .ok (claimed, db')) :
    ((attemptsOf (claimed.map ProcessingJob.snapshot)).map Prod.fst).Nodup := by
  have hids : (attemptsOf (claimed.map ProcessingJob.snapshot)).map Prod.fst =
      claimed.map ProcessingJob.id := by
    rw [attemptsOf, List.map_map, List.map_map]
    rfl
  rw [hids]
  rcases claimJobs_ok h with ⟨-, rfl⟩ | ⟨selected, jobIds, -, rfl, -⟩
  · exact List.nodup_nil
  · exact nodup_claimReadBack _ _ _

/-- The backfill changes the tables, and whether they are known to be done. -/
theorem backfill_cases (w : Worker) (r : Readings) :
    ∃ db backfilled, w.backfill r = { w with db := db, legacyQueuesBackfilled := backfilled } := by
  unfold backfill
  split
  · exact ⟨w.db, w.legacyQueuesBackfilled, rfl⟩
  · exact ⟨_, true, rfl⟩

/-- The outcome write changes the tables, and then there is another to make or none. -/
theorem writeOutcome_cases {cfg : RunnerConfig} {r : Readings} {index : ℕ} {job : ClaimedJob}
    {lost : EventRef} {ending : HandlerEnd} :
    ∃ db pc, w.writeOutcome cfg r index job lost ending = { w with db := db, runner := pc } ∧
      ((∃ next, pc = .write index job lost next) ∨
        ∃ execution, pc = .finish index job lost execution) := by
  unfold writeOutcome
  split
  · split
    · exact ⟨w.db, _, rfl, Or.inr ⟨_, rfl⟩⟩
    · exact ⟨w.db, _, rfl, Or.inr ⟨_, rfl⟩⟩
  · dsimp only
    split
    · exact ⟨_, _, rfl, Or.inr ⟨_, rfl⟩⟩
    · exact ⟨_, _, rfl, Or.inl ⟨_, rfl⟩⟩
    · exact ⟨_, _, rfl, Or.inl ⟨_, rfl⟩⟩
    · exact ⟨_, _, rfl, Or.inr ⟨_, rfl⟩⟩

/-- Only the first turn begins with a fresh batch. -/
theorem stage_turn_eq (index : ℕ) :
    (RunnerPc.turn index).stage = if index = 0 then .fresh else .between := by
  cases index <;> rfl

/-- Leaving the head of the loop without a turn. -/
theorem Inv.leave_turn {index : ℕ} (h : w.Inv) (hpc : w.runner = .turn index) :
    (w.view .between (w.heartbeatOwed + 0)).Inv := by
  have hv := h.view hpc
  rw [stage_turn_eq] at hv
  split at hv
  · exact hv.skip rfl
  · exact hv

/-- **A step at the head of the loop keeps the invariant.** -/
theorem turn_inv {cfg : RunnerConfig} {r : Readings} {index : ℕ} (h : w.Inv)
    (hpc : w.runner = .turn index) (hs : w.runnerStep cfg r = some w') : w'.Inv := by
  have hat := h.at hpc
  rw [runnerStep, hpc] at hs
  dsimp only at hs
  split at hs
  · obtain rfl := Option.some.inj hs
    exact .of_view rfl (h.leave_turn hpc) hat h.heartbeat
  · rename_i job hjob
    split at hs
    · obtain rfl := Option.some.inj hs
      exact .of_view rfl (h.leave_turn hpc) hat h.heartbeat
    · split at hs
      · rename_i hzero
        obtain rfl := Option.some.inj hs
        subst hzero
        have hv := h.view hpc
        have hfirst : ((attemptsOf w.snapshots).map Prod.fst).head? = some job.id := by
          rw [attemptsOf, List.map_map, List.head?_map, List.head?_eq_getElem?, hjob]
          rfl
        exact .of_view rfl (hv.chooseFirst rfl hfirst) ⟨hat, hv.stage.2.2 job.id⟩ h.heartbeat
      · obtain rfl := Option.some.inj hs
        refine .of_view rfl (h.leave_turn hpc) ⟨hat, nofun, ?_⟩ h.heartbeat
        exact fun id hid => absurd hid List.not_mem_nil

/-- **So does a step of the renewal before a job's turn.** -/
theorem stillHeld_inv {cfg : RunnerConfig} {r : Readings} {index : ℕ} {job : ClaimedJob}
    {pc : RenewPc} (h : w.Inv) (hpc : w.runner = .stillHeld index job pc)
    (hs : w.runnerStep cfg r = some w') : w'.Inv := by
  obtain ⟨hrun, hlock, hnamed⟩ := h.at hpc
  have hv := h.view hpc
  rw [runnerStep, hpc] at hs
  obtain ⟨⟨renewal, w₁⟩, hstep, rfl⟩ := Option.map_eq_some_iff.mp hs
  have hmove := renewStep_move hstep
  have hframe := hmove.frame hlock
  have hended : ∀ id, .started w.batch id ∈ w.log → .ended w.batch id ∈ w.log :=
    fun id hid => (hv.ended id hid).resolve_right nofun
  have hnamed₁ := hmove.named hnamed hended
  have hrun₁ : w₁.keeper.runningId = none := hframe.runningId.trans hrun
  have hv₁ : (w₁.view .between (w₁.heartbeatOwed + renewal.owed)).Inv := by
    have hsteps := hmove.steps .between (fun id hid => nomatch hrun.symm.trans hid)
      w.heartbeatOwed
    have howed : w₁.heartbeatOwed = w.heartbeatOwed := by
      rw [heartbeatOwed, heartbeatOwed, hframe.heartbeat]
    rw [howed]
    exact hv.steps hsteps
  have hheartbeat : w₁.HeartbeatLock := by
    intro pc' hpc' hl
    exact (hframe.other .heartbeat nofun (h.heartbeat pc' (hframe.heartbeat ▸ hpc') hl)).1
  cases renewal with
  | going pc₁ => exact .of_view rfl hv₁ ⟨hrun₁, hframe.locking, hnamed₁⟩ hheartbeat
  | returned ids =>
    dsimp only
    split
    · rename_i hid
      obtain ⟨hheld, hconf⟩ := hnamed₁ job.id hid
      refine .of_view rfl (hv₁.choose rfl hheld hconf) ⟨hrun₁, fun hstarted => ?_⟩ hheartbeat
      -- what is held and started is in its turn, and no turn is on
      obtain ⟨p, hp, he⟩ := List.mem_map.mp hheld
      exact nomatch hv₁.running p hp (he ▸ hstarted)
    · exact .of_view rfl hv₁ hrun₁ hheartbeat
  | raised => exact .of_view rfl hv₁ hrun₁ hheartbeat

/-- **So does the end of a job.** -/
theorem finish_inv {cfg : RunnerConfig} {r : Readings} {index : ℕ} {job : ClaimedJob}
    {lost : EventRef} {execution : Execution} (h : w.Inv)
    (hpc : w.runner = .finish index job lost execution)
    (hs : w.runnerStep cfg r = some w') : w'.Inv := by
  have hrun : w.keeper.runningId = some job.id := h.at hpc
  have hrun' := LeaseKeeper.runningId_finish hrun
  have hv := (h.view hpc).finish rfl (w.keeper.held.without_sublist [job.id]) fun p hp he =>
    (JobAttempts.mem_without.mp hp).2 (List.mem_singleton.mpr he)
  rw [runnerStep, hpc] at hs
  obtain ⟨-, rfl⟩ := locked_some hs
  cases execution with
  | returned lostClaim => exact .of_view rfl hv hrun' h.heartbeat
  | raised => exact .of_view rfl hv hrun' h.heartbeat
  | stopped => exact .of_view rfl hv hrun' h.heartbeat

/-- **A step of the runner keeps the invariant.** -/
theorem runnerStep_inv {cfg : RunnerConfig} {r : Readings} (h : w.Inv)
    (hs : w.runnerStep cfg r = some w') : w'.Inv := by
  cases hpc : w.runner with
  | turn index => exact turn_inv h hpc hs
  | stillHeld index job pc => exact stillHeld_inv h hpc hs
  | finish index job lost execution => exact finish_inv h hpc hs
  | idle =>
    have hv := h.view hpc
    rw [runnerStep, hpc] at hs
    obtain rfl := Option.some.inj hs
    exact .of_view rfl hv (h.at hpc) h.heartbeat
  | backfill now =>
    have hv := h.view hpc
    rw [runnerStep, hpc] at hs
    obtain rfl := Option.some.inj hs
    obtain ⟨db, backfilled, he⟩ := w.backfill_cases r
    rw [he]
    exact .of_view rfl hv (h.at hpc) h.heartbeat
  | claim now =>
    obtain ⟨hrun, hheld⟩ := h.at hpc
    have hv := h.view hpc
    rw [runnerStep, hpc] at hs
    dsimp only at hs
    split at hs
    · obtain rfl := Option.some.inj hs
      exact .of_view rfl hv ⟨hrun, hheld⟩ h.heartbeat
    · split at hs
      · obtain rfl := Option.some.inj hs
        exact .of_view rfl hv ⟨hrun, hheld⟩ h.heartbeat
      · rename_i hclaim
        split at hs
        · obtain rfl := Option.some.inj hs
          exact .of_view rfl hv ⟨hrun, hheld⟩ h.heartbeat
        · obtain rfl := Option.some.inj hs
          -- a claimed batch names each job once
          exact .of_view rfl hv ⟨hrun, hheld, nodup_claimJobs hclaim⟩ h.heartbeat
  | hold snapshots =>
    obtain ⟨hrun, hheld, hnodup⟩ := h.at hpc
    rw [runnerStep, hpc] at hs
    obtain ⟨-, rfl⟩ := locked_some hs
    -- the batch begins: all of its jobs are held
    exact .of_view rfl ((h.view hpc).claim hnodup) rfl h.heartbeat
  | drop index job =>
    have hrun : w.keeper.runningId = none := h.at hpc
    rw [runnerStep, hpc] at hs
    obtain ⟨-, rfl⟩ := locked_some hs
    exact .of_view rfl ((h.view hpc).lose (w.keeper.held.without_sublist _)) hrun h.heartbeat
  | begin index job =>
    obtain ⟨-, hstarted⟩ := h.at hpc
    have hv := h.view hpc
    rw [runnerStep, hpc] at hs
    obtain ⟨-, rfl⟩ := locked_some hs
    exact .of_view rfl hv ⟨rfl, hstarted⟩ h.heartbeat
  | markStarted index job lost =>
    have hat := h.at hpc
    have hv := h.view hpc
    rw [runnerStep, hpc] at hs
    obtain rfl := Option.some.inj hs
    exact .of_view rfl hv hat h.heartbeat
  | execute index job lost =>
    obtain ⟨hrun, hstarted⟩ := h.at hpc
    have hv := h.view hpc
    rw [runnerStep, hpc] at hs
    dsimp only at hs
    split at hs
    · obtain rfl := Option.some.inj hs
      -- the handler starts, on a job that has not been started in this batch
      exact .of_view rfl (hv.start rfl hstarted) hrun h.heartbeat
    · obtain rfl := Option.some.inj hs
      exact .of_view rfl hv hrun h.heartbeat
  | handle index job lost =>
    have hat := h.at hpc
    have hv := h.view hpc
    rw [runnerStep, hpc] at hs
    obtain rfl := Option.some.inj hs
    exact .of_view rfl hv hat h.heartbeat
  | finalize index job lost ending =>
    have hrun : w.keeper.runningId = some job.id := h.at hpc
    have hv := h.view hpc
    rw [runnerStep, hpc] at hs
    obtain ⟨-, rfl⟩ := locked_some hs
    exact .of_view rfl hv ((w.keeper.runningId_finalize job.id).trans hrun) h.heartbeat
  | write index job lost ending =>
    have hat := h.at hpc
    have hv := h.view hpc
    rw [runnerStep, hpc] at hs
    obtain rfl := Option.some.inj hs
    obtain ⟨db, pc, he, hnext⟩ := @writeOutcome_cases w cfg r index job lost ending
    rw [he]
    rcases hnext with ⟨next, rfl⟩ | ⟨execution, rfl⟩
    · exact .of_view rfl hv hat h.heartbeat
    · exact .of_view rfl hv hat h.heartbeat
  | ran index lost lostClaim =>
    have hat := h.at hpc
    have hv := h.view hpc
    rw [runnerStep, hpc] at hs
    dsimp only at hs
    split at hs
    · obtain rfl := Option.some.inj hs
      exact .of_view rfl hv hat h.heartbeat
    · obtain rfl := Option.some.inj hs
      exact .of_view rfl hv hat h.heartbeat
  | takeWaiting =>
    have hrun : w.keeper.runningId = none := h.at hpc
    rw [runnerStep, hpc] at hs
    obtain ⟨-, rfl⟩ := locked_some hs
    refine .of_view rfl ?_ hrun h.heartbeat
    have hnone : w.heartbeatOwed + RunnerPc.takeWaiting.owed = w.heartbeatOwed := add_zero _
    -- no job runs, so what is taken is all that is held
    have hv := (h.view hpc).take nofun w.keeper.takeWaiting_perm nofun
    rw [hnone] at hv
    exact hv
  | release batch waiting =>
    have hrun : w.keeper.runningId = none := h.at hpc
    have hv := h.view hpc
    rw [runnerStep, hpc] at hs
    obtain rfl := Option.some.inj hs
    rcases @releaseJobs_cases cfg w r batch waiting with ⟨rfl, he⟩ | ⟨db, hne, he⟩
    · rw [he]
      exact .of_view rfl hv hrun h.heartbeat
    · rw [he]
      refine .of_view rfl ?_ hrun h.heartbeat
      have hv' := hv.release hne rfl
      rw [← add_zero (heartbeatOwed w)] at hv'
      exact hv'
  | clear =>
    rw [runnerStep, hpc] at hs
    obtain ⟨-, rfl⟩ := locked_some hs
    exact .of_view rfl ((h.view hpc).lose (List.nil_sublist _)) ⟨rfl, rfl⟩ h.heartbeat

/-- **A step of the heartbeat keeps the invariant.** -/
theorem heartbeatStep_inv {cfg : RunnerConfig} {r : Readings} (h : w.Inv)
    (hs : w.heartbeatStep cfg r = some w') : w'.Inv := by
  rw [heartbeatStep] at hs
  cases hb : w.heartbeat with
  | none =>
    rw [hb] at hs
    obtain rfl := Option.some.inj hs
    have howed : w.heartbeatOwed = 0 := by
      rw [heartbeatOwed, hb]
      rfl
    have hc := h.custody
    rw [custody, howed] at hc
    refine ⟨hc, h.runner, ?_⟩
    rintro pc ⟨⟩
    exact nofun
  | some pc =>
    rw [hb] at hs
    obtain ⟨⟨renewal, w₁⟩, hstep, rfl⟩ := Option.map_eq_some_iff.mp hs
    have hmove := renewStep_move hstep
    have hframe := hmove.frame (h.heartbeat pc hb)
    have hat : w₁.At w.runner := hframe.at_runner h.runner
    -- what the runner owes is no part of what the heartbeat moves
    have hsteps := hmove.steps _ (fun id hid => h.runner.stage hid) w.runner.owed
    have hc := h.custody
    have howed : w.heartbeatOwed = pc.owed := by
      rw [heartbeatOwed, hb]
      rfl
    rw [custody, howed, add_comm] at hc
    have hc₁ := hc.steps hsteps
    rw [add_comm] at hc₁
    cases renewal with
    | going pc₁ =>
      refine .of_view (w := { w₁ with heartbeat := some pc₁ }) hframe.runner hc₁ hat ?_
      rintro pc' ⟨⟩
      exact hframe.locking
    | returned ids =>
      exact .of_view (w := { w₁ with heartbeat := none }) hframe.runner hc₁ hat nofun
    | raised =>
      exact .of_view (w := { w₁ with heartbeat := none }) hframe.runner hc₁ hat nofun

/-- **Every step keeps the invariant.** -/
theorem step_inv {cfg : RunnerConfig} {a : Act} (h : w.Inv) (hs : w.step cfg a = some w') :
    w'.Inv := by
  cases a with
  | runner r => exact runnerStep_inv h hs
  | heartbeat r => exact heartbeatStep_inv h hs
  | other c =>
    obtain rfl := Option.some.inj hs
    exact ⟨h.custody, h.runner, h.heartbeat⟩

/-- It holds when the process starts. -/
theorem inv_init (db : Db) (monotonic : ℚ) : (init db monotonic).Inv :=
  ⟨Custody.inv_init, ⟨rfl, rfl⟩, nofun⟩

/-! ## The log only grows -/

/-- A release adds to the log. -/
theorem releaseJobs_log {cfg : RunnerConfig} {r : Readings} {batch : ℕ} {waiting : JobAttempts} :
    w.log <+: (w.releaseJobs cfg r batch waiting).log := by
  rcases @releaseJobs_cases cfg w r batch waiting with ⟨-, he⟩ | ⟨db, -, he⟩
  · exact (congrArg Worker.log he).symm ▸ List.prefix_refl _
  · rw [he]
    exact List.prefix_append _ _

/-- A renewal's step adds to the log. -/
theorem RenewFrame.isPrefix (h : RenewFrame thread w renewal w') : w.log <+: w'.log := by
  rcases h.log with hl | ⟨e, -, hl⟩
  · exact hl ▸ List.prefix_refl _
  · exact hl ▸ List.prefix_append _ _

/-- A step of the runner adds to the log. -/
theorem runnerStep_log {cfg : RunnerConfig} {r : Readings} (h : w.Inv)
    (hs : w.runnerStep cfg r = some w') : w.log <+: w'.log := by
  cases hpc : w.runner with
  | stillHeld index job pc =>
    obtain ⟨-, hlock, -⟩ := h.at hpc
    rw [runnerStep, hpc] at hs
    obtain ⟨⟨renewal, w₁⟩, hstep, rfl⟩ := Option.map_eq_some_iff.mp hs
    have hp := ((renewStep_move hstep).frame hlock).isPrefix
    cases renewal with
    | going pc₁ => exact hp
    | returned ids =>
      dsimp only
      split <;> exact hp
    | raised => exact hp
  | idle =>
    rw [runnerStep, hpc] at hs
    exact Option.some.inj hs ▸ List.prefix_refl _
  | backfill now =>
    rw [runnerStep, hpc] at hs
    obtain ⟨db, backfilled, he⟩ := w.backfill_cases r
    rw [he] at hs
    exact Option.some.inj hs ▸ List.prefix_refl _
  | claim now =>
    rw [runnerStep, hpc] at hs
    dsimp only at hs
    split at hs
    · exact Option.some.inj hs ▸ List.prefix_refl _
    · split at hs
      · exact Option.some.inj hs ▸ List.prefix_refl _
      · split at hs <;> exact Option.some.inj hs ▸ List.prefix_refl _
  | turn index =>
    rw [runnerStep, hpc] at hs
    dsimp only at hs
    split at hs
    · exact Option.some.inj hs ▸ List.prefix_refl _
    · split_ifs at hs <;> exact Option.some.inj hs ▸ List.prefix_refl _
  | execute index job lost =>
    rw [runnerStep, hpc] at hs
    dsimp only at hs
    split at hs
    · exact Option.some.inj hs ▸ List.prefix_append _ _
    · exact Option.some.inj hs ▸ List.prefix_refl _
  | ran index lost lostClaim =>
    rw [runnerStep, hpc] at hs
    dsimp only at hs
    split at hs <;> exact Option.some.inj hs ▸ List.prefix_refl _
  | markStarted index job lost | handle index job lost =>
    rw [runnerStep, hpc] at hs
    exact Option.some.inj hs ▸ List.prefix_refl _
  | write index job lost ending =>
    rw [runnerStep, hpc] at hs
    obtain ⟨db, pc, he, -⟩ := @writeOutcome_cases w cfg r index job lost ending
    have hw := Option.some.inj hs
    rw [he] at hw
    exact hw ▸ List.prefix_refl _
  | hold snapshots =>
    rw [runnerStep, hpc] at hs
    exact (locked_some hs).2 ▸ List.prefix_append _ _
  | finish index job lost execution =>
    rw [runnerStep, hpc] at hs
    obtain ⟨-, rfl⟩ := locked_some hs
    cases execution <;> exact List.prefix_append _ _
  | release batch waiting =>
    rw [runnerStep, hpc] at hs
    exact Option.some.inj hs ▸ releaseJobs_log
  | drop _ _ | begin _ _ | finalize _ _ _ _ | takeWaiting | clear =>
    rw [runnerStep, hpc] at hs
    exact (locked_some hs).2 ▸ List.prefix_refl _

/-- Every step adds to the log. -/
theorem step_log {cfg : RunnerConfig} {a : Act} (h : w.Inv) (hs : w.step cfg a = some w') :
    w.log <+: w'.log := by
  cases a with
  | runner r => exact runnerStep_log h hs
  | other c => exact Option.some.inj hs ▸ List.prefix_refl _
  | heartbeat r =>
    rw [step, heartbeatStep] at hs
    cases hb : w.heartbeat with
    | none =>
      rw [hb] at hs
      exact Option.some.inj hs ▸ List.prefix_refl _
    | some pc =>
      rw [hb] at hs
      obtain ⟨⟨renewal, w₁⟩, hstep, rfl⟩ := Option.map_eq_some_iff.mp hs
      have hp := ((renewStep_move hstep).frame (h.heartbeat pc hb)).isPrefix
      cases renewal <;> exact hp

/-! ## Whole runs -/

/-- Every run of the process. -/
abbrev Runs (cfg : RunnerConfig) (w w' : Worker) : Prop := Reaches (step cfg) (fun _ _ => True) w w'

/-- In every run the invariant holds, and the log grows. -/
theorem Inv.runs {cfg : RunnerConfig} (h : w.Inv) (hr : Runs cfg w w') :
    w'.Inv ∧ w.log <+: w'.log := by
  induction hr with
  | refl => exact ⟨h, List.prefix_refl _⟩
  | tail _ _ hs ih => exact ⟨step_inv ih.1 hs, ih.2.trans (step_log ih.1 hs)⟩

end Worker

open BatchEvent in
/-- **One process, two threads.** In every run: a claimed job's handler is started at most once; a job
started that is not the first of its batch was named by a renewal after the turn before; what is passed
to `release_leases` was claimed in that batch and is never started under that claim; nothing is passed
to it twice; and between two calls of `run_once` the keeper holds nothing. -/
theorem batch_custody {cfg : RunnerConfig} {db : Db} {monotonic : ℚ} {w : Worker}
    (h : Worker.Runs cfg (Worker.init db monotonic) w) :
    (∀ batch id, w.log.count (started batch id) ≤ 1) ∧
      (∀ past batch id rest, w.log = past ++ started batch id :: rest →
        ∃ jobs, claimed batch jobs ∈ past ∧ id ∈ jobs.map Prod.fst ∧
          ((jobs.map Prod.fst).head? = some id ∨ Confirmed past batch id)) ∧
      (∀ batch waiting, released batch waiting ∈ w.log → ∀ p ∈ waiting,
        (∃ jobs, claimed batch jobs ∈ w.log ∧ p ∈ jobs) ∧
          ∀ w', Worker.Runs cfg w w' → started batch p.1 ∉ w'.log) ∧
      ((releasedIn w.log).map Lease.key).Nodup ∧
      (w.runner = .idle → w.keeper.held = [] ∧ w.keeper.running = none) := by
  obtain ⟨hinv, -⟩ := (Worker.inv_init db monotonic).runs h
  refine ⟨hinv.custody.count_started_le_one, ?_, ?_, hinv.custody.nodup_released, ?_⟩
  · exact fun past batch id rest hlog => hinv.custody.started_confirmed hlog
  · intro batch waiting hr p hp
    refine ⟨(hinv.custody.released_unstarted hr hp).2, fun w' hw' => ?_⟩
    obtain ⟨hinv', hlog⟩ := hinv.runs hw'
    exact (hinv'.custody.released_unstarted (hlog.subset hr) hp).1
  · intro hidle
    obtain ⟨hrun, hheld⟩ := hinv.at hidle
    exact ⟨hheld, Option.map_eq_none_iff.mp hrun⟩

/-- A worker with a cap of ten seconds on a handler. -/
def sampleRunner : RunnerConfig where
  workerId := "worker"
  leaseSeconds := 60
  maxRuntimeSeconds := 10
  intervalSeconds := 20
  batchSize := 2
  backoffBaseSeconds := 1
  backoffMaxSeconds := 60

/-- Two jobs are claimed; while the handler of the first overruns its cap, the heartbeat abandons it and
releases the second. -/
def overrunActs : List Worker.Act :=
  [Worker.Act.other (.insert sampleEvent "mailer" defaultQueue 3 0 none "first"),
    Worker.Act.other (.insert sampleEvent "pager" defaultQueue 3 0 none "second")] ++
    List.replicate 8 (Worker.Act.runner {}) ++ List.replicate 4 (Worker.Act.heartbeat { monotonic := 11 }) ++
    List.replicate 8 (Worker.Act.runner { monotonic := 12 })

/-- The state after that. -/
def overrun : Worker :=
  runTo (Worker.step sampleRunner) (fun _ _ => True) (Worker.init Db.empty 0) overrunActs

/-- The second job is released and not started, the keeper holds nothing, and the runner is idle. -/
theorem batch_custody_overrun :
    BatchEvent.released 1 [("second", 1)] ∈ overrun.log ∧
      overrun.log.count (.started 1 "first") ≤ 1 ∧ .started 1 "second" ∉ overrun.log ∧
      overrun.keeper.held = [] := by
  have hr : Worker.Runs sampleRunner (Worker.init Db.empty 0) overrun :=
    reaches_runTo (by decide +kernel)
  have hreleased : BatchEvent.released 1 [("second", 1)] ∈ overrun.log := by decide +kernel
  have hidle : overrun.runner.isIdle = true := by decide +kernel
  obtain ⟨hcount, -, hunstarted, -, hnothing⟩ := batch_custody hr
  refine ⟨hreleased, hcount 1 "first", ?_, (hnothing (RunnerPc.eq_idle hidle)).1⟩
  exact (hunstarted 1 _ hreleased ("second", 1) (List.mem_singleton.mpr rfl)).2 _ .refl

end Jasil.Jobs
