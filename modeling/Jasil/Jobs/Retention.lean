import Mathlib.Logic.Function.Basic
import Jasil.Core.Pruning
import Jasil.Relational.Growth
import Jasil.Jobs.AttemptRows
import Jasil.Jobs.Outbox
import Jasil.Jobs.WorkerRegistry

/-! # Pruning the job tables
A prune pass selects a page of ids in one statement and deletes the rows under them in a second, without a lock
in between. All but the worker pass delete by id alone, so what was selected has to stay prunable whatever the
other processes do meanwhile.

* **`Pruning`**: the four tables, with the prune passes and the relay passes under way.
* **`Tables.Prunable`**: what a selected id is known to name, until it is deleted.
* **`deletes_only_dead`**: no step deletes live work. -/

namespace Jasil.Jobs

/-! ## What is pruned -/

/-- The tables that retention prunes. -/
structure Tables where
  db : Db
  outbox : Table EventOutbox.id
  workers : Table JobWorker.instanceId

/-- The prune passes, each of one table. -/
inductive PruneKind
  /-- `delete_completed_jobs_before`. -/
  | completedJobs
  /-- `delete_relayed_before`. -/
  | relayedOutbox
  /-- `delete_attempts_before`. -/
  | orphanedAttempts
  /-- `prune_worker_records_before`. -/
  | oldWorkers
  deriving DecidableEq

/-- A job that was completed before the cutoff. -/
def CompletedBefore (cutoff : Instant) (j : ProcessingJob) : Prop :=
  j.status = .completed ∧ ∃ t ∈ j.completedAt, t < cutoff

instance (cutoff : Instant) : DecidablePred (CompletedBefore cutoff) :=
  fun _ => inferInstanceAs (Decidable (_ ∧ ∃ _ ∈ _, _))

/-- An outbox row that was relayed before the cutoff. -/
def RelayedBefore (cutoff : Instant) (row : EventOutbox) : Prop :=
  row.relayedAt ≠ none ∧ ∃ t ∈ row.relayedAt, t < cutoff

instance (cutoff : Instant) : DecidablePred (RelayedBefore cutoff) :=
  fun _ => inferInstanceAs (Decidable (_ ∧ ∃ _ ∈ _, _))

/-- Claimed before the cutoff, for a job that is not kept. -/
def OrphanedBefore (db : Db) (cutoff : Instant) (a : JobAttempt) : Prop :=
  a.claimedAt < cutoff ∧ db.jobs.get a.jobId = none

instance (db : Db) (cutoff : Instant) : DecidablePred (OrphanedBefore db cutoff) := fun a =>
  decidable_of_iff (a.claimedAt < cutoff ∧ (db.jobs.get a.jobId).isNone)
    (and_congr_right fun _ => Option.isNone_iff_eq_none)

/-- `old_record`: stopped, or not heard of, since before the cutoff. -/
def OldRecord (cutoff : Instant) (w : JobWorker) : Prop :=
  (∃ t ∈ w.stoppedAt, t < cutoff) ∨ (w.stoppedAt = none ∧ w.lastHeartbeatAt < cutoff)

instance (cutoff : Instant) : DecidablePred (OldRecord cutoff) :=
  fun _ => inferInstanceAs (Decidable ((∃ _ ∈ _, _) ∨ _ ∧ _))

namespace Tables

/-- The ids a pass may select. -/
def prunableIds (t : Tables) (cutoff : Instant) : PruneKind → List String
  | .completedJobs => (t.db.jobs.select (CompletedBefore cutoff)).map ProcessingJob.id
  | .relayedOutbox => (t.outbox.select (RelayedBefore cutoff)).map EventOutbox.id
  | .orphanedAttempts => (t.db.attempts.select (OrphanedBefore t.db cutoff)).map JobAttempt.id
  | .oldWorkers => (t.workers.select (OldRecord cutoff)).map JobWorker.instanceId

/-- The delete of a pass. Only that of the workers looks at the rows again. -/
def deleteIds (t : Tables) (cutoff : Instant) (ids : List String) : PruneKind → Tables
  | .completedJobs => { t with db := { t.db with jobs := t.db.jobs.delete (·.id ∈ ids) } }
  | .relayedOutbox => { t with outbox := t.outbox.delete (·.id ∈ ids) }
  | .orphanedAttempts => { t with db := { t.db with attempts := t.db.attempts.delete (·.id ∈ ids) } }
  | .oldWorkers =>
    { t with workers := t.workers.delete fun w => w.instanceId ∈ ids ∧ OldRecord cutoff w }

end Tables

/-! ## Passes under way -/

/-- A prune pass between two of its statements. -/
structure PrunePass where
  kind : PruneKind
  cutoff : Instant
  batchSize : ℕ := pruneBatchSize
  /-- The batches deleted so far. -/
  batches : ℕ := 0
  /-- The ids selected and not yet deleted. -/
  ids : Option (List String) := none

/-- What workers write of themselves. -/
inductive WorkerCall
  | start (d : WorkerDescription)
  | heartbeat (d : WorkerDescription) (now : Instant)
  | stop (instanceId : WorkerId) (now : Instant)

/-- What a call of a worker makes of the registry. -/
def WorkerCall.run (workers : Table JobWorker.instanceId) : WorkerCall → Table JobWorker.instanceId
  | .start d => recordWorkerStart workers d
  | .heartbeat d now => recordWorkerHeartbeat workers d now
  | .stop instanceId now => recordWorkerStop workers instanceId now

/-- The ids that were ever given to a row. -/
structure SeenIds where
  jobs : List JobId
  attempts : List AttemptId
  outbox : List OutboxId

/-- The ids of the rows there are. -/
def Tables.ids (t : Tables) : SeenIds :=
  ⟨t.db.jobs.rows.map (·.id), t.db.attempts.rows.map (·.id), t.outbox.rows.map (·.id)⟩

/-- The ids that were seen before and those that are seen now. -/
def SeenIds.add (seen new : SeenIds) : SeenIds :=
  ⟨seen.jobs ++ new.jobs, seen.attempts ++ new.attempts, seen.outbox ++ new.outbox⟩

/-- The tables, with the passes under way. -/
structure Pruning where
  tables : Tables
  prunes : ℕ → Option PrunePass
  /-- The open relay transactions. -/
  txs : ℕ → Option RelayTx
  /-- An onlooker's record of every id a row was ever given. -/
  seen : SeenIds

/-- What can happen next. -/
inductive PruneStep
  /-- A pass begins. -/
  | begin (p : ℕ) (kind : PruneKind) (cutoff : Instant) (batchSize : ℕ)
  /-- It selects the next page, in whatever order the database hands the ids out. -/
  | select (p : ℕ) (page : List String)
  /-- It deletes the page. -/
  | delete (p : ℕ)
  /-- Its process dies. -/
  | die (p : ℕ)
  /-- A call of the job operations, an event published, or a step of a relay pass. -/
  | relay (a : RelayStep)
  | worker (c : WorkerCall)

namespace Pruning

/-- A fresh installation. -/
def init : Pruning :=
  ⟨⟨Db.empty, Table.empty, Table.empty⟩, fun _ => none, fun _ => none, ⟨[], [], []⟩⟩

/-- The state with other tables. -/
def write (s : Pruning) (t : Tables) : Pruning :=
  { s with tables := t, seen := s.seen.add t.ids }

/-- Take one step. -/
def step (s : Pruning) : PruneStep → Option Pruning
  | .begin p kind cutoff batchSize =>
    match s.prunes p with
    | some _ => none
    | none => some { s with prunes := Function.update s.prunes p (some { kind, cutoff, batchSize }) }
  | .select p page =>
    match s.prunes p with
    | some ⟨kind, cutoff, batchSize, batches, none⟩ =>
      if page ⊆ s.tables.prunableIds cutoff kind ∧ page.Nodup ∧ page.length ≤ batchSize then
        -- an empty page ends the pass
        let next := if page.isEmpty then none
          else some ⟨kind, cutoff, batchSize, batches, some page⟩
        some { s with prunes := Function.update s.prunes p next }
      else none
    | _ => none
  | .delete p =>
    match s.prunes p with
    | some ⟨kind, cutoff, batchSize, batches, some page⟩ =>
      -- a short page is the last one, and so is the one after which the pass has had its batches
      let next := if page.length < batchSize ∨ batches + 1 = pruneMaxBatches then none
        else some ⟨kind, cutoff, batchSize, batches + 1, none⟩
      let s := s.write (s.tables.deleteIds cutoff page kind)
      some { s with prunes := Function.update s.prunes p next }
    | _ => none
  | .die p => some { s with prunes := Function.update s.prunes p none }
  | .relay a =>
    match Relaying.step ⟨s.tables.db, s.tables.outbox, s.txs⟩ a with
    | some ⟨db, outbox, txs⟩ => some { s.write { s.tables with db, outbox } with txs }
    | none => none
  | .worker c => some (s.write { s.tables with workers := c.run s.tables.workers })

/-- The rows that other tables have beyond those there are have ids that no row ever had. -/
def NewTo (s : Pruning) (t : Tables) : Prop :=
  (∀ j ∈ t.db.jobs.rows, s.tables.db.jobs.get j.id = none → j.id ∉ s.seen.jobs)
    ∧ (∀ a ∈ t.db.attempts.rows, s.tables.db.attempts.get a.id = none → a.id ∉ s.seen.attempts)
    ∧ ∀ row ∈ t.outbox.rows, s.tables.outbox.get row.id = none → row.id ∉ s.seen.outbox

/-- **Ids are minted new.** -/
def NewIds (s : Pruning) (a : PruneStep) : Prop :=
  ∀ s' ∈ s.step a, s.NewTo s'.tables

end Pruning

/-! ## What the other processes do -/

/-- A completed job stays completed. -/
theorem RowStep.of_completed {c : Call} {j j' : ProcessingJob} (h : RowStep c j j')
    (hs : j.status = .completed) : j'.status = .completed := by
  cases h with
  | keep | renew | claimCallback | notified | deferCallback | releaseCallback => exact hs
  | claim hp => exact nomatch hs.symm.trans hp
  | claimSelected ht => exact nomatch hs.symm.trans ht.2
  | release hh => exact nomatch hs.symm.trans hh.2.1
  | settle ho _ => exact nomatch hs.symm.trans ho.2.1
  | expireLast he _ => exact nomatch hs.symm.trans he.1
  | expireRequeue he _ => exact nomatch hs.symm.trans he.1
  | replay hd => exact nomatch hs.symm.trans hd

/-- A completed job stays completed, at the instant at which it was. -/
def StaysCompleted (j j' : ProcessingJob) : Prop :=
  j.status = .completed → j'.status = .completed

/-- A relayed row stays relayed, at the instant at which it was. -/
def StaysRelayed (row row' : EventOutbox) : Prop :=
  row.relayedAt ≠ none → row'.relayedAt ≠ none

/-- The attempt is still one of its job. -/
def SameJob (a a' : JobAttempt) : Prop :=
  a'.jobId = a.jobId

/-- What a step that prunes nothing makes of the tables. -/
structure Tables.Grows (t t' : Tables) : Prop where
  jobs : Table.Grows StaysCompleted t.db.jobs t'.db.jobs
  outbox : Table.Grows StaysRelayed t.outbox t'.outbox
  attempts : Table.Grows SameJob t.db.attempts t'.db.attempts
  workers : Table.Grows (fun _ _ => True) t.workers t'.workers
  /-- An attempt begins with the claim of a job there is. -/
  opened : ∀ a ∈ t'.db.attempts.rows, t.db.attempts.get a.id = none → t'.db.jobs.get a.jobId ≠ none

section Growing

variable (t : Tables)

/-- A job that is not written stays completed. -/
theorem stays_completed_rfl (j : ProcessingJob) : StaysCompleted j j := fun h => h

/-- A row that is not written stays relayed. -/
theorem stays_relayed_rfl (row : EventOutbox) : StaysRelayed row row := fun h => h

/-- An attempt that is not written is still one of its job. -/
theorem sameJob_rfl (a : JobAttempt) : SameJob a a := rfl

/-- A row that is there is not new. -/
theorem not_new {attempts : Table JobAttempt.id} {a : JobAttempt} (ha : a ∈ attempts.rows)
    (hnone : attempts.get a.id = none) : False :=
  nomatch hnone.symm.trans (Table.get_key ha)

/-- The attempts that a claim opens are of jobs there are. -/
theorem opened_claimUpdate (db : Db) (r : ClaimRequest) (jobIds : List JobId) (mint : JobId → AttemptId) :
    Table.Grows SameJob db.attempts (claimUpdate db r jobIds mint).attempts
      ∧ ∀ a ∈ (claimUpdate db r jobIds mint).attempts.rows, db.attempts.get a.id = none →
        (claimUpdate db r jobIds mint).jobs.get a.jobId ≠ none := by
  obtain ⟨rows, hrows⟩ := attempts_claimUpdate db r jobIds mint
  refine ⟨Table.grows_append hrows fun _ => rfl, fun a ha hnone => ?_⟩
  rw [claimUpdate] at ha ⊢
  by_cases hrecord : r.recordAttempts = true
  · rw [if_pos hrecord] at ha ⊢
    rcases Table.mem_insertAll ha with ha | ha
    · exact (not_new ha hnone).elim
    · obtain ⟨j, hj, rfl⟩ := List.mem_map.mp ha
      have hget := Table.get_key (Table.mem_select.mp hj).1
      exact fun hjob => by cases hget.symm.trans hjob
  · rw [if_neg hrecord] at ha
    exact (not_new ha hnone).elim

/-- A call on the attempts. -/
theorem attempts_run (c : Call) (db : Db) :
    Table.Grows SameJob db.attempts (c.run db).attempts
      ∧ ∀ a ∈ (c.run db).attempts.rows, db.attempts.get a.id = none →
        (c.run db).jobs.get a.jobId ≠ none := by
  cases hc : c.isClaim with
  | true =>
    have hkeep : Table.Grows SameJob db.attempts db.attempts
        ∧ ∀ a ∈ db.attempts.rows, db.attempts.get a.id = none → db.jobs.get a.jobId ≠ none :=
      ⟨Table.Grows.refl sameJob_rfl _, fun _ ha hnone => (not_new ha hnone).elim⟩
    cases c with
    | claim r mint =>
      rw [Call.run]
      split
      case h_1 claimed db' h =>
        rcases claimJobs_ok h with ⟨rfl, -⟩ | ⟨-, jobIds, rfl, -⟩
        · exact hkeep
        · exact opened_claimUpdate db r jobIds mint
      case h_2 => exact hkeep
    | claimSelected r jobIds mint => exact opened_claimUpdate db r jobIds mint
    | _ => cases hc
  | false =>
    have hrows := run_attempts hc db
    refine ⟨fun id a ha => ?_, fun a ha hnone => ?_⟩
    · obtain ⟨hmem, rfl⟩ := Table.get_eq_some_iff.mp ha
      have hsame := onAttempt_same db c a
      refine ⟨c.onAttempt db a, Table.get_eq_some_iff.mpr ⟨?_, hsame.id⟩, hsame.jobId⟩
      rw [hrows]
      exact List.mem_map_of_mem hmem
    · rw [hrows] at ha
      obtain ⟨a₀, ha₀, rfl⟩ := List.mem_map.mp ha
      rw [(onAttempt_same db c a₀).id] at hnone
      exact (not_new ha₀ hnone).elim

/-- **A call of the job operations.** -/
theorem Tables.grows_run (c : Call) : t.Grows { t with db := c.run t.db } where
  jobs := by
    intro id j hj
    obtain ⟨j', hj', hrow⟩ := run_get_some c hj
    exact ⟨j', hj', hrow.of_completed⟩
  outbox := Table.Grows.refl stays_relayed_rfl _
  attempts := (attempts_run c t.db).1
  workers := Table.Grows.refl (fun _ => trivial) _
  opened := (attempts_run c t.db).2

/-- Tables that are not written have grown by nothing. -/
theorem Tables.Grows.refl : t.Grows t where
  jobs := Table.Grows.refl stays_completed_rfl _
  outbox := Table.Grows.refl stays_relayed_rfl _
  attempts := Table.Grows.refl sameJob_rfl _
  workers := Table.Grows.refl (fun _ => trivial) _
  opened _ ha hnone := (not_new ha hnone).elim

/-- Publishing an event deletes no row. -/
theorem grows_publish (outbox : Table EventOutbox.id) (event : Event) (now : Instant)
    (outboxId : OutboxId) :
    Table.Grows StaysRelayed outbox (Relaying.publish outbox event now outboxId) := by
  rw [Relaying.publish, addToOutbox]
  cases hfind : outbox.rows.find? (·.eventId = event.eventId) with
  | none => exact Table.grows_insert stays_relayed_rfl _
  | some stored =>
    have hkeep := Table.Grows.refl stays_relayed_rfl outbox
    cases hcheck : checkSameEvent event stored with
    | error e => simpa [hcheck, bind, Except.bind] using hkeep
    | ok u => simpa [hcheck, bind, Except.bind, pure, Except.pure] using hkeep

/-- A stamp deletes no row. -/
theorem grows_markRelayed (outbox : Table EventOutbox.id) (id : OutboxId) (now : Instant) :
    Table.Grows StaysRelayed outbox (markRelayed outbox id now) :=
  Table.grows_update stays_relayed_rfl fun _ _ _ => Option.some_ne_none now

/-- Nor do several. -/
theorem grows_marks (marks : List OutboxId) (now : Instant) (outbox : Table EventOutbox.id) :
    Table.Grows StaysRelayed outbox (marks.foldl (fun outbox id => markRelayed outbox id now) outbox) := by
  induction marks generalizing outbox with
  | nil => exact Table.Grows.refl stays_relayed_rfl _
  | cons id marks ih =>
    exact (grows_markRelayed outbox id now).trans (fun _ _ _ h h' hr => h' (h hr)) (ih _)

/-- **A step of the relay.** -/
theorem Tables.grows_relay {txs : ℕ → Option RelayTx} {a : RelayStep} {s' : Relaying}
    (hs : Relaying.step ⟨t.db, t.outbox, txs⟩ a = some s') :
    t.Grows { t with db := s'.db, outbox := s'.outbox } := by
  cases Relaying.moves_of_step hs with
  | @call c => exact t.grows_run c
  | publish => exact { Tables.Grows.refl t with outbox := grows_publish t.outbox _ _ _ }
  | read | inserted | marked | failed => exact .refl t
  | committed =>
    exact { Tables.Grows.refl t with
      jobs := Table.grows_insertAll stays_completed_rfl _
      outbox := grows_marks _ _ _
      opened := fun _ ha hnone => (not_new ha hnone).elim }

/-- A call of a worker deletes no row of the registry. -/
theorem grows_workerCall (workers : Table JobWorker.instanceId) (c : WorkerCall) :
    Table.Grows (fun _ _ => True) workers (c.run workers) := by
  have hinsert (row : JobWorker) : Table.Grows (fun _ _ => True) workers (workers.insert row) :=
    Table.grows_insert (fun _ => trivial) row
  cases c with
  | start d =>
    unfold WorkerCall.run recordWorkerStart
    refine (hinsert d.row).trans (fun _ _ _ _ _ => trivial) ?_
    exact Table.grows_update (fun _ => trivial) fun _ _ => trivial
  | heartbeat d now =>
    unfold WorkerCall.run recordWorkerHeartbeat
    refine (hinsert d.row).trans (fun _ _ _ _ _ => trivial) ?_
    exact Table.grows_update (fun _ => trivial) fun _ _ => trivial
  | stop instanceId now =>
    unfold WorkerCall.run recordWorkerStop
    exact Table.grows_update (fun _ => trivial) fun _ _ => trivial

end Growing

/-! ## What a pass knows -/

namespace Pruning

/-- What is known of an id that a pass has selected. -/
def Selected (s : Pruning) : PruneKind → String → Prop
  | .completedJobs => Table.Doomed (·.status = .completed) s.seen.jobs s.tables.db.jobs
  | .relayedOutbox => Table.Doomed (·.relayedAt ≠ none) s.seen.outbox s.tables.outbox
  | .orphanedAttempts =>
    Table.Doomed (fun a => a.jobId ∈ s.seen.jobs ∧ s.tables.db.jobs.get a.jobId = none)
      s.seen.attempts s.tables.db.attempts
  -- the delete looks at the rows again
  | .oldWorkers => fun _ => True

/-- The ids of the tables have been seen, those of the jobs of the attempts too, and the passes under way have
selected what is doomed. -/
structure Inv (s : Pruning) : Prop where
  jobs : ∀ j ∈ s.tables.db.jobs.rows, j.id ∈ s.seen.jobs
  outbox : ∀ row ∈ s.tables.outbox.rows, row.id ∈ s.seen.outbox
  attempts : ∀ a ∈ s.tables.db.attempts.rows, a.id ∈ s.seen.attempts ∧ a.jobId ∈ s.seen.jobs
  selected : ∀ p, ∀ pass ∈ s.prunes p, ∀ ids ∈ pass.ids, ∀ id ∈ ids, s.Selected pass.kind id

/-- It holds of a fresh installation. -/
theorem inv_init : init.Inv where
  jobs _ hj := absurd hj List.not_mem_nil
  outbox _ hrow := absurd hrow List.not_mem_nil
  attempts _ ha := absurd ha List.not_mem_nil
  selected _ _ hpass := nomatch hpass

section Steps

variable {s s' : Pruning} {t : Tables}

/-- What is selected is doomed. -/
theorem Inv.selected_of_prunable (h : s.Inv) {kind : PruneKind} {cutoff : Instant} {id : String}
    (hid : id ∈ s.tables.prunableIds cutoff kind) : s.Selected kind id := by
  cases kind with
  | completedJobs =>
    obtain ⟨j, hj, rfl⟩ := List.mem_map.mp hid
    obtain ⟨hj, hbefore⟩ := Table.mem_select.mp hj
    exact .of_mem hj (h.jobs j hj) hbefore.1
  | relayedOutbox =>
    obtain ⟨row, hrow, rfl⟩ := List.mem_map.mp hid
    obtain ⟨hrow, hbefore⟩ := Table.mem_select.mp hrow
    exact .of_mem hrow (h.outbox row hrow) hbefore.1
  | orphanedAttempts =>
    obtain ⟨a, ha, rfl⟩ := List.mem_map.mp hid
    obtain ⟨ha, hbefore⟩ := Table.mem_select.mp ha
    exact .of_mem ha (h.attempts a ha).1 ⟨(h.attempts a ha).2, hbefore.2⟩
  | oldWorkers => trivial

/-- A job that was seen and is gone does not come back. -/
theorem NewTo.gone (hnew : s.NewTo t) {id : JobId}
    (hseen : id ∈ s.seen.jobs) (hgone : s.tables.db.jobs.get id = none) : t.db.jobs.get id = none := by
  by_contra hback
  obtain ⟨j, hj⟩ := Option.ne_none_iff_exists'.mp hback
  obtain ⟨hmem, rfl⟩ := Table.get_eq_some_iff.mp hj
  exact hnew.1 j hmem hgone hseen

/-- **What the other processes do** leaves doomed what was selected. -/
theorem Selected.grows (hgrows : s.tables.Grows t) (hnew : s.NewTo t) {kind : PruneKind} {id : String}
    (h : s.Selected kind id) : (s.write t).Selected kind id := by
  cases kind with
  | completedJobs =>
    exact Table.Doomed.grows h hgrows.jobs (List.subset_append_left _ _) hnew.1 fun _ _ hR => hR
  | relayedOutbox =>
    exact Table.Doomed.grows h hgrows.outbox (List.subset_append_left _ _) hnew.2.2 fun _ _ hR => hR
  | orphanedAttempts =>
    refine Table.Doomed.grows h hgrows.attempts (List.subset_append_left _ _) hnew.2.1 ?_
    intro a a' hjob ⟨hseen, hgone⟩
    rw [SameJob] at hjob
    rw [hjob]
    exact ⟨List.mem_append_left _ hseen, hnew.gone hseen hgone⟩
  | oldWorkers => trivial

/-- It is kept by a write that deletes nothing, and inserts new rows only. -/
theorem Inv.write_grows (h : s.Inv) (hgrows : s.tables.Grows t) (hnew : s.NewTo t) :
    (s.write t).Inv where
  jobs _ hj := List.mem_append_right _ (List.mem_map_of_mem hj)
  outbox _ hrow := List.mem_append_right _ (List.mem_map_of_mem hrow)
  attempts a ha := by
    refine ⟨List.mem_append_right _ (List.mem_map_of_mem ha), ?_⟩
    cases hold : s.tables.db.attempts.get a.id with
    | none =>
      -- a new attempt is of a job there is
      obtain ⟨j, hj⟩ := Option.ne_none_iff_exists'.mp (hgrows.opened a ha hold)
      obtain ⟨hmem, hid⟩ := Table.get_eq_some_iff.mp hj
      exact List.mem_append_right _ (hid ▸ List.mem_map_of_mem hmem)
    | some a₀ =>
      obtain ⟨a', ha', hjob⟩ := hgrows.attempts a.id a₀ hold
      obtain rfl := Option.some.inj ((Table.get_key ha).symm.trans ha')
      rw [SameJob] at hjob
      rw [hjob]
      exact List.mem_append_left _ (h.attempts a₀ (Table.mem_of_get hold)).2
  selected p pass hpass ids hids id hid := (h.selected p pass hpass ids hids id hid).grows hgrows hnew

/-- **A delete** leaves doomed what the other passes have selected. -/
theorem Selected.deleteIds {kind : PruneKind} {id : String} (h : s.Selected kind id) (cutoff : Instant)
    (ids : List String) (deleted : PruneKind) :
    (s.write (s.tables.deleteIds cutoff ids deleted)).Selected kind id := by
  have hkeep {ρ : Type} {key : ρ → String} {P : ρ → Prop} {seen new : List String} {t : Table key}
      (hdoomed : Table.Doomed P seen t id) : Table.Doomed P (seen ++ new) t id :=
    ⟨List.mem_append_left _ hdoomed.seen, hdoomed.dead⟩
  cases kind with
  | completedJobs =>
    cases deleted with
    | completedJobs => exact Table.Doomed.delete h (List.subset_append_left _ _) fun _ hP => hP
    | _ => exact hkeep h
  | relayedOutbox =>
    cases deleted with
    | relayedOutbox => exact Table.Doomed.delete h (List.subset_append_left _ _) fun _ hP => hP
    | _ => exact hkeep h
  | orphanedAttempts =>
    have hseen {a : JobAttempt} {new : List JobId}
        (ha : a.jobId ∈ s.seen.jobs ∧ s.tables.db.jobs.get a.jobId = none) :
        a.jobId ∈ s.seen.jobs ++ new ∧ s.tables.db.jobs.get a.jobId = none :=
      ⟨List.mem_append_left _ ha.1, ha.2⟩
    cases deleted with
    | orphanedAttempts => exact Table.Doomed.delete h (List.subset_append_left _ _) fun a ha => hseen ha
    | completedJobs =>
      refine ⟨List.mem_append_left _ h.seen, fun a ha => ?_⟩
      obtain ⟨hjob, hgone⟩ := h.dead a ha
      refine ⟨List.mem_append_left _ hjob, ?_⟩
      -- a delete brings no job back
      by_contra hback
      obtain ⟨j, hj⟩ := Option.ne_none_iff_exists'.mp hback
      exact nomatch hgone.symm.trans (Table.get_of_get_delete hj)
    | _ => exact ⟨List.mem_append_left _ h.seen, fun a ha => hseen (h.dead a ha)⟩
  | oldWorkers => trivial

/-- It is kept by a deletion of the selected ids that are still due. -/
theorem Inv.write_deleteIds (h : s.Inv) (cutoff : Instant) (ids : List String) (kind : PruneKind) :
    (s.write (s.tables.deleteIds cutoff ids kind)).Inv where
  jobs _ hj := List.mem_append_right _ (List.mem_map_of_mem hj)
  outbox _ hrow := List.mem_append_right _ (List.mem_map_of_mem hrow)
  attempts a ha := by
    refine ⟨List.mem_append_right _ (List.mem_map_of_mem ha), List.mem_append_left _ ?_⟩
    have hold : a ∈ s.tables.db.attempts.rows := by
      cases kind with
      | orphanedAttempts => exact (Table.mem_delete.mp ha).1
      | _ => exact ha
    exact (h.attempts a hold).2
  selected p pass hpass ids' hids' id hid :=
    (h.selected p pass hpass ids' hids' id hid).deleteIds cutoff ids kind

/-- The passes under way are others, which have selected what is doomed. -/
theorem Inv.update (h : s.Inv) (p : ℕ) {pass : Option PrunePass}
    (hpass : ∀ x ∈ pass, ∀ ids ∈ x.ids, ∀ id ∈ ids, s.Selected x.kind id) :
    Inv { s with prunes := Function.update s.prunes p pass } where
  jobs := h.jobs
  outbox := h.outbox
  attempts := h.attempts
  selected q x hx := by
    dsimp only at hx
    by_cases hq : q = p
    · subst hq
      rw [Function.update_self] at hx
      exact hpass x hx
    · rw [Function.update_of_ne hq] at hx
      exact h.selected q x hx

/-- **Every step** keeps what the passes know. -/
theorem inv_step {a : PruneStep} (h : s.Inv) (hnew : s.NewIds a) (hs : s.step a = some s') : s'.Inv := by
  have hnewTo : s.NewTo s'.tables := hnew s' hs
  cases a with
  | begin p kind cutoff batchSize =>
    simp only [step] at hs
    split at hs
    · exact nomatch hs
    · obtain rfl := Option.some.inj hs
      refine h.update p fun x hx ids hids => ?_
      obtain rfl := Option.some.inj hx
      exact nomatch hids
  | select p page =>
    simp only [step] at hs
    split at hs
    · rename_i kind cutoff batchSize batches hpass
      obtain ⟨⟨hsub, -⟩, hs⟩ := Option.ite_none_right_eq_some.mp hs
      obtain rfl := Option.some.inj hs
      refine h.update p fun x hx ids hids id hid => ?_
      obtain ⟨-, hx⟩ := Option.ite_none_left_eq_some.mp hx
      obtain rfl := Option.some.inj hx
      obtain rfl := Option.some.inj hids
      -- what the SELECT finds is prunable now, and stays so
      exact h.selected_of_prunable (hsub hid)
    · exact nomatch hs
  | delete p =>
    simp only [step] at hs
    split at hs
    · rename_i kind cutoff batchSize batches page hpass
      obtain rfl := Option.some.inj hs
      refine (h.write_deleteIds cutoff page kind).update p fun x hx ids hids => ?_
      obtain ⟨-, hx⟩ := Option.ite_none_left_eq_some.mp hx
      obtain rfl := Option.some.inj hx
      exact nomatch hids
    · exact nomatch hs
  | die p =>
    obtain rfl := Option.some.inj hs
    exact h.update p fun x hx => nomatch hx
  | relay a =>
    simp only [step] at hs
    split at hs
    · rename_i db outbox txs hrelay
      obtain rfl := Option.some.inj hs
      have hwrite := h.write_grows (s.tables.grows_relay hrelay) hnewTo
      exact ⟨hwrite.jobs, hwrite.outbox, hwrite.attempts, hwrite.selected⟩
    · exact nomatch hs
  | worker c =>
    obtain rfl := Option.some.inj hs
    exact h.write_grows { Tables.Grows.refl s.tables with
      workers := grows_workerCall s.tables.workers c } hnewTo

end Steps

end Pruning

/-! ## What is deleted -/

/-- **What a step deletes is dead**: a relayed row of the outbox, a completed job, an attempt of a job that is
gone, and of the workers one that has stopped or, for the cutoff of the pass, has not been heard of. -/
structure DeletesOnlyDead (s s' : Pruning) (a : PruneStep) : Prop where
  outbox : ∀ row ∈ s.tables.outbox.rows, s'.tables.outbox.get row.id = none → row.relayedAt ≠ none
  jobs : ∀ j ∈ s.tables.db.jobs.rows, s'.tables.db.jobs.get j.id = none → j.status = .completed
  attempts : ∀ r ∈ s.tables.db.attempts.rows, s'.tables.db.attempts.get r.id = none →
    s.tables.db.jobs.get r.jobId = none
  workers : ∀ w ∈ s.tables.workers.rows, s'.tables.workers.get w.instanceId = none →
    ∃ p, a = .delete p ∧ ∃ pass ∈ s.prunes p, pass.kind = .oldWorkers
      ∧ (w.stoppedAt ≠ none ∨ w.lastHeartbeatAt < pass.cutoff)

/-- What grows deletes nothing. -/
theorem deletesOnlyDead_of_grows {s s' : Pruning} {a : PruneStep} (h : s.tables.Grows s'.tables) :
    DeletesOnlyDead s s' a where
  outbox _ hrow hgone := absurd hgone (h.outbox.get_ne_none fun hnone =>
    nomatch hnone.symm.trans (Table.get_key hrow))
  jobs _ hj hgone := absurd hgone (h.jobs.get_ne_none fun hnone => nomatch hnone.symm.trans (Table.get_key hj))
  attempts _ ha hgone := absurd hgone (h.attempts.get_ne_none fun hnone => not_new ha hnone)
  workers _ hw hgone := absurd hgone (h.workers.get_ne_none fun hnone =>
    nomatch hnone.symm.trans (Table.get_key hw))

/-- **Retention never deletes live work**: whatever the prune passes, the relay passes, the workers and the
publishers do between any two of their statements. -/
theorem deletes_only_dead {s s' : Pruning} {a : PruneStep}
    (h : Reaches Pruning.step Pruning.NewIds Pruning.init s) (hs : s.step a = some s') :
    DeletesOnlyDead s s' a := by
  have hinv : s.Inv := h.invariant Pruning.Inv Pruning.inv_init fun _ hinv hok hstep =>
    Pruning.inv_step hinv hok hstep
  cases a with
  | begin p kind cutoff batchSize =>
    simp only [Pruning.step] at hs
    split at hs
    · exact nomatch hs
    · obtain rfl := Option.some.inj hs
      exact deletesOnlyDead_of_grows (.refl s.tables)
  | select p page =>
    simp only [Pruning.step] at hs
    split at hs
    · obtain ⟨-, hs⟩ := Option.ite_none_right_eq_some.mp hs
      obtain rfl := Option.some.inj hs
      exact deletesOnlyDead_of_grows (.refl s.tables)
    · exact nomatch hs
  | delete p =>
    simp only [Pruning.step] at hs
    split at hs
    · rename_i kind cutoff batchSize batches page hpass
      obtain rfl := Option.some.inj hs
      have hselected := hinv.selected p _ hpass page rfl
      have hrest : DeletesOnlyDead s s (.delete p) := deletesOnlyDead_of_grows (.refl s.tables)
      cases kind with
      | completedJobs =>
        exact { hrest with
          jobs := fun j hj hgone => Table.dead_of_deleted hselected hj hgone }
      | relayedOutbox =>
        exact { hrest with
          outbox := fun row hrow hgone => Table.dead_of_deleted hselected hrow hgone }
      | orphanedAttempts =>
        exact { hrest with
          attempts := fun r hr hgone => (Table.dead_of_deleted hselected hr hgone).2 }
      | oldWorkers =>
        refine { hrest with workers := fun w hw hgone => ?_ }
        obtain ⟨-, hold⟩ := Table.match_of_get_delete
          (p := fun w : JobWorker => w.instanceId ∈ page ∧ OldRecord cutoff w) hw hgone
        refine ⟨p, rfl, _, hpass, rfl, ?_⟩
        rcases hold with ⟨t, ht, -⟩ | ⟨-, hbeat⟩
        · exact .inl fun hnone => nomatch hnone.symm.trans ht
        · exact .inr hbeat
    · exact nomatch hs
  | die p =>
    obtain rfl := Option.some.inj hs
    exact deletesOnlyDead_of_grows (.refl s.tables)
  | relay a =>
    simp only [Pruning.step] at hs
    split at hs
    · rename_i db outbox txs hrelay
      obtain rfl := Option.some.inj hs
      exact deletesOnlyDead_of_grows (s.tables.grows_relay hrelay)
    · exact nomatch hs
  | worker c =>
    obtain rfl := Option.some.inj hs
    exact deletesOnlyDead_of_grows { Tables.Grows.refl s.tables with
      workers := grows_workerCall s.tables.workers c }

/-! ## A pass over a completed job -/

instance (s : Pruning) (t : Tables) : Decidable (s.NewTo t) :=
  inferInstanceAs (Decidable ((∀ _ ∈ _, _ → _) ∧ (∀ _ ∈ _, _ → _) ∧ ∀ _ ∈ _, _ → _))

instance (s : Pruning) (a : PruneStep) : Decidable (s.NewIds a) :=
  inferInstanceAs (Decidable (∀ _ ∈ s.step a, _))

/-- A job completes and is selected. -/
def Pruning.selectedOnce : Pruning :=
  runTo Pruning.step Pruning.NewIds Pruning.init
    [.relay (.call (sampleInsert 3)), .relay (.call (sampleClaim "worker" 1 "a")),
      .relay (.call (.settle .complete ⟨"job", "worker", 1⟩ { now := 2 })),
      .begin 0 .completedJobs 10 pruneBatchSize, .select 0 ["job"]]

/-- The job that the pass deletes next is completed. -/
theorem deletes_only_dead_completed :
    ∃ s', Pruning.selectedOnce.step (.delete 0) = some s' ∧ s'.tables.db.jobs.get "job" = none
      ∧ DeletesOnlyDead Pruning.selectedOnce s' (.delete 0) := by
  obtain ⟨s', hs⟩ : ∃ s', Pruning.selectedOnce.step (.delete 0) = some s' :=
    Option.isSome_iff_exists.mp (by decide +kernel)
  have hgone : ∀ s ∈ Pruning.selectedOnce.step (.delete 0), s.tables.db.jobs.get "job" = none := by
    decide +kernel
  exact ⟨s', hs, hgone s' hs, deletes_only_dead (reaches_runTo (by decide +kernel)) hs⟩

end Jasil.Jobs
