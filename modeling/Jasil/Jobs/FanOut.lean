import Jasil.Jobs.Retention
import Jasil.Relational.Uncommitted

/-! # Fan-out, exactly once
Relay passes overlap, fail and read the same rows, and an event may be published again. The unique index keeps
one job for each event and subscriber, and what a pass stamps it has fanned out.

* **`FanOutInv`**: the jobs that are committed and those of the open passes are apart, and each carries the
  event of its outbox row.
* **`TxInv`**: what a pass has executed so far, it has done.
* **`fan_out`**: over every run. -/

namespace Jasil.Jobs

/-! ## What a job carries -/

/-- The event a job was inserted for, as the job holds it. -/
def ProcessingJob.staged (j : ProcessingJob) : Event where
  eventId := j.eventId
  eventType := j.eventType
  source := j.source
  timestamp := j.eventTimestamp.getD ""
  payload := j.payload
  metadata := j.jobMetadata.getD []
  schemaVersion := j.schemaVersion

/-- What the unique index on the jobs compares. -/
def ProcessingJob.work (j : ProcessingJob) : String × SubscriberId := (j.eventId, j.subscriberId)

/-- **The job was inserted for this row and subscriber**, and carries the event of the row. -/
structure ProcessingJob.Carries (j : ProcessingJob) (row : EventOutbox)
    (subscriberId : SubscriberId) : Prop where
  subscriberId : j.subscriberId = subscriberId
  event : j.staged = eventFrom row

section Rows

variable {j j' : ProcessingJob} {row row' : EventOutbox} {subscriberId : SubscriberId} {c : Call} {db : Db}

/-- A job that is inserted for a row carries the row's event. -/
theorem staged_newJob (row : EventOutbox) (subscriberId : SubscriberId) (queue : String) (maxAttempts : ℤ)
    (now : Instant) (availableAt : Option Instant) (jobId : JobId) :
    (newJob (eventFrom row) subscriberId queue maxAttempts now availableAt jobId).staged = eventFrom row := by
  -- metadata without entries is stored as none
  cases hmetadata : row.eventMetadata.getD [] <;> simp [ProcessingJob.staged, newJob, eventFrom, hmetadata]

/-- A job has the id of the event that it carries. -/
theorem ProcessingJob.Carries.eventId (h : j.Carries row subscriberId) : j.eventId = row.eventId :=
  congrArg Event.eventId h.event

/-- The work of a job is its event and its subscriber. -/
theorem ProcessingJob.Carries.work (h : j.Carries row subscriberId) : j.work = (row.eventId, subscriberId) := by
  rw [ProcessingJob.work, h.eventId, h.subscriberId]

/-- No write of a job touches what it carries. -/
theorem RowStep.staged_eq (h : RowStep c j j') : j'.staged = j.staged ∧ j'.subscriberId = j.subscriberId := by
  cases h with
  | settle ho hset => cases hset <;> exact ⟨rfl, rfl⟩
  | _ => exact ⟨rfl, rfl⟩

/-- **Where nothing is inserted every job is one that was there**, after one write. -/
theorem rowStep_of_mem (hnew : c.newRow = none) (hj' : j' ∈ (c.run db).jobs.rows) :
    ∃ j ∈ db.jobs.rows, j.id = j'.id ∧ RowStep c j j' := by
  have hget := Table.get_key hj'
  cases hold : db.jobs.get j'.id with
  | none =>
    rw [run_get_none c hold hget] at hnew
    cases hnew
  | some j =>
    obtain ⟨j'', hj'', hstep⟩ := run_get_some c hold
    obtain rfl := Option.some.inj (hget.symm.trans hj'')
    exact ⟨j, Table.mem_of_get hold, Table.key_of_get hold, hstep⟩

end Rows

/-! ## What a pass does -/

namespace RelayTx

/-- **An insert of a pass** finds a job for the work, committed or its own, or adds one. -/
theorem insert_cases {db : Db} {tx tx' : RelayTx} {row : EventOutbox} {subscriberId : SubscriberId}
    (h : tx.insert db row subscriberId = .ok tx') :
    (tx' = tx ∧ ∃ j, (j ∈ db.jobs.rows ∨ j ∈ tx.jobs.rows) ∧ j.work = (row.eventId, subscriberId))
      ∨ ∃ queue, tx' = { tx with
          jobs := tx.jobs.insert (newJob (eventFrom row) subscriberId queue tx.pass.maxAttempts
            tx.pass.now none (tx.pass.mint row.id subscriberId)) }
        ∧ ∀ j, j ∈ db.jobs.rows ∨ j ∈ tx.jobs.rows → j.work ≠ (row.eventId, subscriberId) := by
  rw [insert] at h
  split at h
  · cases h
  rename_i queue _
  rw [insertJob] at h
  cases hqueue : validateQueueName queue with
  | error e => simp [hqueue, bind, Except.bind] at h
  | ok name =>
    simp only [hqueue, bind, Except.bind, pure, Except.pure] at h
    by_cases hown : tx.jobs.rows.any (SameWork (newJob (eventFrom row) subscriberId name tx.pass.maxAttempts
        tx.pass.now none (tx.pass.mint row.id subscriberId)) ·) = true
    · -- the pass has inserted the job before
      obtain ⟨j, hj, hsame⟩ := List.any_eq_true.mp hown
      obtain ⟨hevent, hsubscriber⟩ := of_decide_eq_true hsame
      have hfound : ∃ j, (j ∈ db.jobs.rows ∨ j ∈ tx.jobs.rows) ∧ j.work = (row.eventId, subscriberId) :=
        ⟨j, .inr hj, Prod.ext hevent.symm hsubscriber.symm⟩
      rw [if_pos hown] at h
      dsimp only at h
      split at h <;> exact .inl ⟨(Except.ok.inj h).symm, hfound⟩
    · rw [if_neg hown] at h
      dsimp only at h
      split at h
      · rename_i hcommitted
        obtain ⟨j, hj, hsame⟩ := List.any_eq_true.mp hcommitted
        obtain ⟨hevent, hsubscriber⟩ := of_decide_eq_true hsame
        exact .inl ⟨(Except.ok.inj h).symm, j, .inl hj, Prod.ext hevent hsubscriber⟩
      · rename_i hcommitted
        refine .inr ⟨name, (Except.ok.inj h).symm, ?_⟩
        rintro j (hj | hj) hwork
        · refine hcommitted (List.any_eq_true.mpr ⟨j, hj, decide_eq_true ?_⟩)
          exact ⟨congrArg Prod.fst hwork, congrArg Prod.snd hwork⟩
        · refine hown (List.any_eq_true.mpr ⟨j, hj, decide_eq_true ?_⟩)
          exact ⟨(congrArg Prod.fst hwork).symm, (congrArg Prod.snd hwork).symm⟩

end RelayTx

section Statements

variable {pass : RelayPass} {rows : List EventOutbox} {row : EventOutbox} {subscriberId : SubscriberId}
  {id : OutboxId}

/-- A pass inserts a job for each row and each of its subscribers. -/
@[simp] theorem insert_mem_statements : .insert row subscriberId ∈ pass.statements rows
    ↔ row ∈ rows ∧ subscriberId ∈ pass.registry.subscribersFor row.eventType := by
  simp only [RelayPass.statements, List.mem_flatMap, List.mem_append, List.mem_map, List.mem_singleton,
    RelayStatement.insert.injEq, reduceCtorEq, or_false]
  constructor
  · rintro ⟨row', hrow, subscriberId', hsubscriber, rfl, rfl⟩
    exact ⟨hrow, hsubscriber⟩
  · rintro ⟨hrow, hsubscriber⟩
    exact ⟨row, hrow, subscriberId, hsubscriber, rfl, rfl⟩

/-- A pass stamps the rows that it read. -/
@[simp] theorem mark_mem_statements : .mark id ∈ pass.statements rows ↔ ∃ row ∈ rows, row.id = id := by
  simp only [RelayPass.statements, List.mem_flatMap, List.mem_append, List.mem_map, List.mem_singleton,
    RelayStatement.mark.injEq, reduceCtorEq, and_false, exists_false, false_or, eq_comm]

end Statements

/-! ## The invariant -/

/-- The row is the same but for its stamp. -/
def SameEvent (row row' : EventOutbox) : Prop := row'.id = row.id ∧ eventFrom row' = eventFrom row

/-- The jobs that a pass has written and nobody else sees. -/
def own (txs : ℕ → Option RelayTx) (p : ℕ) : List ProcessingJob := ((txs p).map (·.jobs.rows)).getD []

/-- **What a pass has executed so far, it has done**: for each insert there is the job, and it has stamped no row
before. -/
structure TxInv (jobs : List ProcessingJob) (outbox : List EventOutbox) (tx : RelayTx) : Prop where
  carries : ∀ j ∈ tx.jobs.rows, ∃ row ∈ outbox, j.staged = eventFrom row
  progress : ∃ rows done, (∀ row ∈ rows, ∃ row' ∈ outbox, SameEvent row row')
    ∧ tx.pass.statements rows = done ++ tx.todo
    ∧ (∀ row subscriberId, .insert row subscriberId ∈ done →
        ∃ j, (j ∈ jobs ∨ j ∈ tx.jobs.rows) ∧ j.Carries row subscriberId)
    ∧ ∀ id ∈ tx.marks, .mark id ∈ done

/-- **Jobs apart, each with the event of its outbox row.** -/
structure FanOutInv (s : Relaying) : Prop where
  work : Apart ProcessingJob.work s.db.jobs.rows (own s.txs)
  ids : Apart ProcessingJob.id s.db.jobs.rows (own s.txs)
  events : (s.outbox.rows.map EventOutbox.eventId).Nodup
  carries : ∀ j ∈ s.db.jobs.rows, ∃ row ∈ s.outbox.rows, j.staged = eventFrom row
  txs : ∀ p, ∀ tx ∈ s.txs p, TxInv s.db.jobs.rows s.outbox.rows tx

namespace Relaying

/-- No job there is, committed or not, has the id. -/
def NewId (s : Relaying) (id : JobId) : Prop :=
  (∀ j ∈ s.db.jobs.rows, j.id ≠ id) ∧ ∀ p, ∀ j ∈ own s.txs p, j.id ≠ id

/-- **What is asked of the steps**: an insert waits for the transaction it conflicts with, the ids that a pass
mints are new, and only the relay inserts jobs. -/
structure FanOutOk (s : Relaying) (a : RelayStep) : Prop where
  waiting : s.Waiting a
  newIds : ∀ p, a = .next p → ∀ tx ∈ s.txs p, ∀ row subscriberId todo, tx.todo = .insert row subscriberId
    :: todo →
    s.NewId (tx.pass.mint row.id subscriberId)
  relayOnly : ∀ c, a = .call c → c.newRow = none

end Relaying

section Growing

variable {jobs jobs' : List ProcessingJob} {outbox outbox' : List EventOutbox} {tx : RelayTx}
  {txs : ℕ → Option RelayTx} {p : ℕ} {s s' : Relaying} {a : RelayStep}

/-- What a pass has written is set with its transaction. -/
theorem own_update (t : Option RelayTx) :
    own (Function.update txs p t) = Function.update (own txs) p ((t.map (·.jobs.rows)).getD []) := by
  funext q
  by_cases hq : q = p
  · subst hq
    simp [own]
  · simp [own, hq]

/-- What a pass has written is in its transaction. -/
theorem own_of_mem (h : tx ∈ txs p) : own txs p = tx.jobs.rows := by
  rw [own, Option.mem_def.mp h]
  rfl

/-- The jobs are still there, and carry what they did. -/
def StillCarried (jobs jobs' : List ProcessingJob) : Prop :=
  ∀ j ∈ jobs, ∃ j' ∈ jobs', j'.staged = j.staged ∧ j'.subscriberId = j.subscriberId

/-- The rows are still there. -/
def StillStaged (outbox outbox' : List EventOutbox) : Prop :=
    ∀ row ∈ outbox, ∃ row' ∈ outbox', SameEvent row row'

/-- Jobs that are all there are still carried. -/
theorem stillCarried_of_subset (h : jobs ⊆ jobs') : StillCarried jobs jobs' := fun j hj => ⟨j, h hj, rfl, rfl⟩

/-- Rows that are all there are still staged. -/
theorem stillStaged_of_subset (h : outbox ⊆ outbox') : StillStaged outbox outbox' :=
  fun row hrow => ⟨row, h hrow, rfl, rfl⟩

/-- What a pass has done stays done while jobs and rows are added. -/
theorem TxInv.mono (h : TxInv jobs outbox tx) (hjobs : StillCarried jobs jobs')
    (houtbox : StillStaged outbox outbox') :
    TxInv jobs' outbox' tx := by
  obtain ⟨rows, done, hrows, hdone, hinserts, hmarks⟩ := h.progress
  refine ⟨fun j hj => ?_, rows, done, fun row hrow => ?_, hdone, fun row subscriberId hinsert => ?_, hmarks⟩
  · obtain ⟨row, hrow, hevent⟩ := h.carries j hj
    obtain ⟨row', hrow', -, hsame⟩ := houtbox row hrow
    exact ⟨row', hrow', hevent.trans hsame.symm⟩
  · obtain ⟨row', hrow', hid, hsame⟩ := hrows row hrow
    obtain ⟨row'', hrow'', hid', hsame'⟩ := houtbox row' hrow'
    exact ⟨row'', hrow'', hid'.trans hid, hsame'.trans hsame⟩
  · obtain ⟨j, hj | hj, hcarries⟩ := hinserts row subscriberId hinsert
    · obtain ⟨j', hj', hstaged, hsubscriber⟩ := hjobs j hj
      exact ⟨j', .inl hj', hsubscriber.trans hcarries.subscriberId, hstaged.trans hcarries.event⟩
    · exact ⟨j, .inr hj, hcarries⟩

/-- The jobs carry events of rows that are still there. -/
theorem carries_mono (h : ∀ j ∈ jobs, ∃ row ∈ outbox, j.staged = eventFrom row)
    (houtbox : StillStaged outbox outbox') :
    ∀ j ∈ jobs, ∃ row ∈ outbox', j.staged = eventFrom row := by
  intro j hj
  obtain ⟨row, hrow, hevent⟩ := h j hj
  obtain ⟨row', hrow', -, hsame⟩ := houtbox row hrow
  exact ⟨row', hrow', hevent.trans hsame.symm⟩

/-- **A job for the work carries the event of the row**, as the rows differ in their event ids. -/
theorem carries_of_work {j : ProcessingJob} {row : EventOutbox} {subscriberId : SubscriberId}
    (hevents : (outbox.map EventOutbox.eventId).Nodup) (hrow : ∃ row' ∈ outbox, SameEvent row row')
    (hj : ∃ row ∈ outbox, j.staged = eventFrom row) (hwork : j.work = (row.eventId, subscriberId)) :
    j.Carries row subscriberId := by
  obtain ⟨row', hrow', -, hsame⟩ := hrow
  obtain ⟨row₀, hrow₀, hstaged⟩ := hj
  have hid : row₀.eventId = row'.eventId := by
    calc row₀.eventId = j.eventId := (congrArg Event.eventId hstaged).symm
      _ = row.eventId := congrArg Prod.fst hwork
      _ = row'.eventId := (congrArg Event.eventId hsame).symm
  obtain rfl := List.inj_on_of_nodup_map hevents hrow₀ hrow' hid
  exact ⟨congrArg Prod.snd hwork, hstaged.trans hsame⟩

/-- **What the stamps of a pass make of the rows.** -/
theorem rows_marks (marks : List OutboxId) (now : Instant) (outbox : Table EventOutbox.id) :
    (marks.foldl (fun outbox id => markRelayed outbox id now) outbox).rows
      = outbox.rows.map fun row => if row.id ∈ marks then { row with relayedAt := some now } else row := by
  induction marks generalizing outbox with
  | nil => simp
  | cons id marks ih =>
    rw [List.foldl_cons, ih, markRelayed, Table.update, List.map_map]
    refine List.map_congr_left fun row _ => ?_
    rw [Function.comp_apply]
    by_cases hid : row.id = id
    · simp [hid]
    · simp [hid]

/-- Stamps leave the events of the rows. -/
theorem stillStaged_marks (marks : List OutboxId) (now : Instant) (outbox : Table EventOutbox.id) :
    StillStaged outbox.rows (marks.foldl (fun outbox id => markRelayed outbox id now) outbox).rows := by
  intro row hrow
  rw [rows_marks]
  refine ⟨_, List.mem_map_of_mem hrow, ?_⟩
  split <;> exact ⟨rfl, rfl⟩

/-- A publish adds a row with a new event id, or nothing. -/
theorem publish_cases (outbox : Table EventOutbox.id) (event : Event) (now : Instant) (outboxId : OutboxId) :
    Relaying.publish outbox event now outboxId = outbox
      ∨ (Relaying.publish outbox event now outboxId).rows = outbox.rows ++ [newOutboxRow event now outboxId]
        ∧ ∀ row ∈ outbox.rows, row.eventId ≠ event.eventId := by
  rw [Relaying.publish, addToOutbox]
  cases hfind : outbox.rows.find? (·.eventId = event.eventId) with
  | some stored =>
    left
    cases hcheck : checkSameEvent event stored <;> simp [hcheck, bind, Except.bind, pure, Except.pure]
  | none =>
    dsimp only
    cases hget : outbox.get outboxId with
    | some row => exact .inl (Table.insert_of_taken (r := newOutboxRow event now outboxId) hget)
    | none =>
      refine .inr ⟨Table.rows_insert_of_new (r := newOutboxRow event now outboxId) hget, fun row hrow => ?_⟩
      simpa using List.find?_eq_none.mp hfind row hrow

end Growing

/-! ## Every step keeps it -/

section Steps

variable {s s' : Relaying} {a : RelayStep} {tx : RelayTx} {p : ℕ} {row : EventOutbox}
  {subscriberId : SubscriberId} {todo : List RelayStatement}

/-- It is kept by a call that inserts no job. -/
theorem FanOutInv.call (h : FanOutInv s) {c : Call}
    (hnew : c.newRow = none) : FanOutInv { s with db := c.run s.db } := by
  have hrun {j' : ProcessingJob} (hj' : j' ∈ (c.run s.db).jobs.rows) :
      ∃ j ∈ s.db.jobs.rows, j.id = j'.id ∧ j'.staged = j.staged ∧ j'.subscriberId = j.subscriberId := by
    obtain ⟨j, hj, hid, hstep⟩ := rowStep_of_mem hnew hj'
    exact ⟨j, hj, hid, hstep.staged_eq⟩
  have hwork {j j' : ProcessingJob} (hstaged : j'.staged = j.staged)
      (hsubscriber : j'.subscriberId = j.subscriberId) :
      j'.work = j.work := Prod.ext (congrArg Event.eventId hstaged) hsubscriber
  have hstill : StillCarried s.db.jobs.rows (c.run s.db).jobs.rows := by
    intro j hj
    obtain ⟨j', hj', hstep⟩ := run_get_some c (Table.get_key hj)
    exact ⟨j', Table.mem_of_get hj', hstep.staged_eq⟩
  refine ⟨h.work.congr ?_ ?_, h.ids.congr (c.run s.db).jobs.nodup ?_, h.events, ?_, ?_⟩
  · -- two jobs for one work come from two that were there
    refine List.Nodup.map_on (fun j₁ hj₁ j₂ hj₂ heq => ?_) (List.Nodup.of_map _ (c.run s.db).jobs.nodup)
    obtain ⟨j₁', hj₁', hid₁, hstaged₁, hsubscriber₁⟩ := hrun hj₁
    obtain ⟨j₂', hj₂', hid₂, hstaged₂, hsubscriber₂⟩ := hrun hj₂
    have hsame : j₁'.work = j₂'.work :=
      (hwork hstaged₁ hsubscriber₁).symm.trans (heq.trans (hwork hstaged₂ hsubscriber₂))
    obtain rfl := List.inj_on_of_nodup_map h.work.unique hj₁' hj₂' hsame
    exact Table.eq_of_key_eq hj₁ hj₂ (hid₁.symm.trans hid₂)
  · intro j' hj'
    obtain ⟨j, hj, -, hstaged, hsubscriber⟩ := hrun hj'
    exact ⟨j, hj, (hwork hstaged hsubscriber).symm⟩
  · intro j' hj'
    obtain ⟨j, hj, hid, -⟩ := hrun hj'
    exact ⟨j, hj, hid⟩
  · intro j' hj'
    obtain ⟨j, hj, -, hstaged, -⟩ := hrun hj'
    obtain ⟨row, hrow, hevent⟩ := h.carries j hj
    exact ⟨row, hrow, hstaged.trans hevent⟩
  · intro p tx htx
    exact (h.txs p tx htx).mono hstill (stillStaged_of_subset (List.Subset.refl _))

/-- It is kept when an event is published. -/
theorem FanOutInv.publish (h : FanOutInv s) (event : Event) (now : Instant) (outboxId : OutboxId) :
    FanOutInv { s with outbox := Relaying.publish s.outbox event now outboxId } := by
  rcases publish_cases s.outbox event now outboxId with hsame | ⟨hrows, hnew⟩
  · rw [hsame]
    exact h
  · have hstill : StillStaged s.outbox.rows (Relaying.publish s.outbox event now outboxId).rows := by
      rw [hrows]
      exact stillStaged_of_subset (List.subset_append_left _ _)
    refine ⟨h.work, h.ids, ?_, carries_mono h.carries hstill, fun p tx htx => ?_⟩
    · dsimp only
      rw [hrows, List.map_append]
      refine h.events.append (List.nodup_singleton _) ?_
      rw [List.map_singleton, List.disjoint_singleton]
      intro hmem
      obtain ⟨row, hrow, heq⟩ := List.mem_map.mp hmem
      exact hnew row hrow heq
    · exact (h.txs p tx htx).mono (stillCarried_of_subset (List.Subset.refl _)) hstill

/-- A pass that starts, ends, or goes on without a new job. -/
theorem FanOutInv.update (h : FanOutInv s) {t : Option RelayTx}
    (hown : (t.map (·.jobs.rows)).getD [] = own s.txs p ∨ t = none)
    (ht : ∀ tx ∈ t, TxInv s.db.jobs.rows s.outbox.rows tx) :
    FanOutInv { s with txs := Function.update s.txs p t } := by
  have htxs : ∀ q, ∀ tx ∈ Function.update s.txs p t q, TxInv s.db.jobs.rows s.outbox.rows tx := by
    intro q tx htx
    by_cases hq : q = p
    · subst hq
      rw [Function.update_self] at htx
      exact ht tx htx
    · rw [Function.update_of_ne hq] at htx
      exact h.txs q tx htx
  rcases hown with hown | rfl
  · refine ⟨?_, ?_, h.events, h.carries, htxs⟩
    · dsimp only
      rw [own_update, hown, Function.update_eq_self]
      exact h.work
    · dsimp only
      rw [own_update, hown, Function.update_eq_self]
      exact h.ids
  · refine ⟨?_, ?_, h.events, h.carries, htxs⟩
    · dsimp only
      rw [own_update]
      exact h.work.rollback p
    · dsimp only
      rw [own_update]
      exact h.ids.rollback p

/-- It is kept when a pass reads. -/
theorem FanOutInv.read (h : FanOutInv s) (hidle : s.txs p = none) (pass : RelayPass) (locked : List OutboxId) :
    FanOutInv { s with
      txs := Function.update s.txs p
        (some { pass, todo := pass.statements (listUnrelayed s.outbox pass.batchSize locked) }) } := by
  refine h.update (.inl ?_) ?_
  · simp [own, hidle, Table.empty]
  · rintro tx ⟨⟩
    refine ⟨?_, listUnrelayed s.outbox pass.batchSize locked, [], ?_, rfl, ?_, ?_⟩
    · intro j hj
      exact absurd hj List.not_mem_nil
    · intro row hrow
      refine ⟨row, ?_, rfl, rfl⟩
      exact (Table.mem_select.mp (mem_sortBy.mp (List.mem_of_mem_take hrow))).1
    · intro row subscriberId hmem
      exact absurd hmem List.not_mem_nil
    · intro id hmem
      exact absurd hmem List.not_mem_nil

/-- The next statement of a pass is executed. -/
theorem TxInv.advance (h : TxInv s.db.jobs.rows s.outbox.rows tx) {stmt : RelayStatement} {tx' : RelayTx}
    (htodo : tx.todo = stmt :: tx'.todo) (hpass : tx'.pass = tx.pass)
    (hcarries : ∀ j ∈ tx'.jobs.rows, ∃ row ∈ s.outbox.rows, j.staged = eventFrom row)
    (hjobs : tx.jobs.rows ⊆ tx'.jobs.rows)
    (hinsert : ∀ row subscriberId, stmt = .insert row subscriberId
    → (∃ row' ∈ s.outbox.rows, SameEvent row row') →
      ∃ j, (j ∈ s.db.jobs.rows ∨ j ∈ tx'.jobs.rows) ∧ j.Carries row subscriberId)
    (hmarks : ∀ id ∈ tx'.marks, id ∈ tx.marks ∨ stmt = .mark id) : TxInv s.db.jobs.rows s.outbox.rows tx' := by
  obtain ⟨rows, done, hrows, hdone, hinserts, hmarked⟩ := h.progress
  rw [htodo, ← List.singleton_append, ← List.append_assoc] at hdone
  refine ⟨hcarries, rows, done ++ [stmt], hrows, hpass ▸ hdone, fun row subscriberId hmem => ?_,
    fun id hid => ?_⟩
  · rcases List.mem_append.mp hmem with hmem | hmem
    · obtain ⟨j, hj, hcarried⟩ := hinserts row subscriberId hmem
      exact ⟨j, hj.imp_right fun hown => hjobs hown, hcarried⟩
    · have hstmt := (List.mem_singleton.mp hmem).symm
      refine hinsert row subscriberId hstmt (hrows row ?_)
      have hall : .insert row subscriberId ∈ tx.pass.statements rows := by
        rw [hdone, hstmt]
        simp
      exact (insert_mem_statements.mp hall).1
  · rcases hmarks id hid with hid | hid
    · exact List.mem_append_left _ (hmarked id hid)
    · exact List.mem_append_right _ (List.mem_singleton.mpr hid.symm)

/-- **The insert of a pass** finds the job, or adds one that no other pass has. -/
theorem FanOutInv.insert (h : FanOutInv s) (htx : s.txs p = some tx)
    (htodo : tx.todo = .insert row subscriberId :: todo)
    {tx' : RelayTx} (hinsert : tx.insert s.db row subscriberId = .ok tx')
    (hwaiting : ¬s.Waits p row.eventId subscriberId) (hid : s.NewId (tx.pass.mint row.id subscriberId)) :
    FanOutInv { s with txs := Function.update s.txs p (some { tx' with todo }) } := by
  have htxInv := h.txs p tx htx
  have hown := own_of_mem htx
  rcases RelayTx.insert_cases hinsert with ⟨rfl, j, hj, hwork⟩ | ⟨queue, rfl, hnone⟩
  · -- the job is there, committed or of this pass
    refine h.update (.inl hown.symm) ?_
    rintro _ ⟨⟩
    refine htxInv.advance htodo rfl htxInv.carries (List.Subset.refl _) ?_ fun id hmark => .inl hmark
    rintro row' subscriberId' ⟨⟩ hrow
    refine ⟨j, hj, carries_of_work h.events hrow ?_ hwork⟩
    exact hj.elim (h.carries j) (htxInv.carries j)
  · -- no job of this id, so the insert adds one
    set job := newJob (eventFrom row) subscriberId queue tx.pass.maxAttempts tx.pass.now none
      (tx.pass.mint row.id subscriberId) with hjob
    have hwork : job.work = (row.eventId, subscriberId) := rfl
    have hrows : (tx.jobs.insert job).rows = tx.jobs.rows ++ [job] := by
      refine Table.rows_insert_of_new (Table.get_eq_none_iff.mpr fun j hj => ?_)
      exact hid.2 p j (hown ▸ hj)
    have hcarriesJob : (∃ row' ∈ s.outbox.rows, SameEvent row row') → ∃ row' ∈ s.outbox.rows,
        job.staged = eventFrom row' := by
      rintro ⟨row', hrow', -, hsame⟩
      exact ⟨row', hrow', (staged_newJob ..).trans hsame.symm⟩
    have hlisted : ∃ row' ∈ s.outbox.rows, SameEvent row row' := by
      obtain ⟨rows, done, hrows, hdone, -⟩ := htxInv.progress
      refine hrows row ?_
      have hall : .insert row subscriberId ∈ tx.pass.statements rows := by
        rw [hdone, htodo]
        simp
      exact (insert_mem_statements.mp hall).1
    have hothers : ∀ q, ∀ j ∈ own s.txs q, j.work ≠ job.work := by
      intro q j hj heq
      by_cases hq : q = p
      · subst hq
        rw [hown] at hj
        exact hnone j (.inr hj) (heq.trans hwork)
      · -- another pass has the job, and this one waits
        cases hother : s.txs q with
        | none => simp [own, hother] at hj
        | some tx₂ =>
          rw [own_of_mem hother] at hj
          exact hwaiting ⟨q, hq, tx₂, hother, j, hj, congrArg Prod.fst heq, congrArg Prod.snd heq⟩
    refine ⟨?_, ?_, h.events, h.carries, fun q tx₂ htx₂ => ?_⟩
    · dsimp only
      rw [own_update, Option.map_some, Option.getD_some, hrows, ← hown]
      exact h.work.insert (fun j hj heq => hnone j (.inl hj) (heq.trans hwork)) hothers
    · dsimp only
      rw [own_update, Option.map_some, Option.getD_some, hrows, ← hown]
      exact h.ids.insert hid.1 hid.2
    · dsimp only at htx₂
      by_cases hq : q = p
      · subst hq
        rw [Function.update_self] at htx₂
        obtain rfl := Option.some.inj htx₂
        refine htxInv.advance htodo rfl ?_ ?_ ?_ fun id hmark => .inl hmark
        · dsimp only
          rw [hrows, List.forall_mem_append]
          exact ⟨htxInv.carries, by simpa using hcarriesJob hlisted⟩
        · dsimp only
          rw [hrows]
          exact List.subset_append_left _ _
        · rintro row' subscriberId' ⟨⟩ -
          refine ⟨job, .inr ?_, rfl, staged_newJob ..⟩
          dsimp only
          rw [hrows]
          exact List.mem_append_right _ (List.mem_singleton_self _)
      · rw [Function.update_of_ne hq] at htx₂
        exact h.txs q tx₂ htx₂

/-- It is kept when a pass stamps a row. -/
theorem FanOutInv.mark (h : FanOutInv s) (htx : s.txs p = some tx) {id : OutboxId}
    (htodo : tx.todo = .mark id :: todo) :
    FanOutInv { s with txs := Function.update s.txs p (some { tx with todo, marks := tx.marks ++ [id] }) } := by
  have htxInv := h.txs p tx htx
  refine h.update (.inl (own_of_mem htx).symm) ?_
  rintro _ ⟨⟩
  refine htxInv.advance htodo rfl htxInv.carries (List.Subset.refl _) ?_ ?_
  · rintro row' subscriberId' ⟨⟩
  · intro id' hid'
    rcases List.mem_append.mp hid' with hold | hnew
    · exact .inl hold
    · rw [List.mem_singleton.mp hnew]
      exact .inr rfl

/-- The jobs of a pass are all new to the table. -/
theorem FanOutInv.rows_commit (h : FanOutInv s) (htx : s.txs p = some tx) :
    (s.db.jobs.insertAll tx.jobs.rows).rows = s.db.jobs.rows ++ own s.txs p := by
  rw [own_of_mem htx]
  refine Table.rows_insertAll_of_new tx.jobs.nodup fun j hj => Table.get_eq_none_iff.mpr fun j' hj' heq => ?_
  rw [← own_of_mem htx] at hj
  exact h.ids.ne_of_mem hj' hj heq

/-- It is kept when a pass commits. -/
theorem FanOutInv.commit (h : FanOutInv s) (htx : s.txs p = some tx) :
    FanOutInv ⟨(tx.commit s.db s.outbox).1, (tx.commit s.db s.outbox).2, Function.update s.txs p none⟩ := by
  have hrows : (tx.commit s.db s.outbox).1.jobs.rows = s.db.jobs.rows ++ own s.txs p := h.rows_commit htx
  have houtbox : StillStaged s.outbox.rows (tx.commit s.db s.outbox).2.rows := stillStaged_marks _ _ _
  refine ⟨?_, ?_, ?_, ?_, fun q tx' htx' => ?_⟩
  · dsimp only
    rw [hrows, own_update]
    exact h.work.commit p
  · dsimp only
    rw [hrows, own_update]
    exact h.ids.commit p
  · -- the event ids stay as they are
    have hids : (tx.commit s.db s.outbox).2.rows.map EventOutbox.eventId
        = s.outbox.rows.map EventOutbox.eventId := by
      rw [RelayTx.commit, rows_marks, List.map_map]
      refine List.map_congr_left fun row _ => ?_
      rw [Function.comp_apply]
      split <;> rfl
    dsimp only
    rw [hids]
    exact h.events
  · refine carries_mono ?_ houtbox
    rw [hrows, List.forall_mem_append, own_of_mem htx]
    exact ⟨h.carries, (h.txs p tx htx).carries⟩
  · dsimp only at htx'
    by_cases hq : q = p
    · subst hq
      rw [Function.update_self] at htx'
      cases htx'
    · rw [Function.update_of_ne hq] at htx'
      refine (h.txs q tx' htx').mono (stillCarried_of_subset ?_) houtbox
      rw [hrows]
      exact List.subset_append_left _ _

/-- It holds in the beginning. -/
theorem fanOutInv_init : FanOutInv Relaying.init := by
  refine ⟨.empty, .empty, List.nodup_nil, ?_, ?_⟩
  · intro j hj
    exact absurd hj List.not_mem_nil
  · rintro p tx ⟨⟩

/-- **Every step keeps the jobs apart.** -/
theorem fanOutInv_step (h : FanOutInv s) (hok : s.FanOutOk a) (hs : s.step a = some s') : FanOutInv s' := by
  cases Relaying.moves_of_step hs with
  | call => exact h.call (hok.relayOnly _ rfl)
  | publish => exact h.publish _ _ _
  | read hidle => exact h.read hidle _ _
  | @inserted p tx tx' row subscriberId todo htx htodo hinsert =>
    exact h.insert htx htodo hinsert (hok.waiting tx htx row subscriberId todo htodo)
      (hok.newIds p rfl tx htx row subscriberId todo htodo)
  | marked htx htodo => exact h.mark htx htodo
  | committed htx => exact h.commit htx
  | failed =>
    -- its inserts are rolled back
    exact h.update (.inr rfl) (by rintro tx ⟨⟩)

/-- **No step loses a job**, and none makes it another's. -/
theorem stillCarried_step (hs : s.step a = some s') : StillCarried s.db.jobs.rows s'.db.jobs.rows := by
  cases Relaying.moves_of_step hs with
  | @call c =>
    intro j hj
    obtain ⟨j', hj', hstep⟩ := run_get_some c (Table.get_key hj)
    exact ⟨j', Table.mem_of_get hj', hstep.staged_eq⟩
  | publish | read | inserted | marked | failed => exact stillCarried_of_subset (List.Subset.refl _)
  | @committed p tx =>
    -- the jobs of a pass are added behind those that are there
    obtain ⟨rows, hrows⟩ := Table.rows_insertAll s.db.jobs tx.jobs.rows
    refine stillCarried_of_subset ?_
    dsimp only [RelayTx.commit]
    rw [hrows]
    exact List.subset_append_left _ _

/-- A job is never deleted, nor is what it carries changed. -/
theorem carried_of_reaches {ok : Relaying → RelayStep → Prop} (h : Reaches Relaying.step ok s s')
    (hjob : ∃ j ∈ s.db.jobs.rows, j.Carries row subscriberId) :
    ∃ j ∈ s'.db.jobs.rows, j.Carries row subscriberId := by
  refine h.invariant (fun s' => ∃ j ∈ s'.db.jobs.rows, j.Carries row subscriberId) hjob ?_
  rintro s₁ a s₂ - ⟨j, hj, hcarries⟩ - hs
  obtain ⟨j', hj', hstaged, hsubscriber⟩ := stillCarried_step hs j hj
  exact ⟨j', hj', hsubscriber.trans hcarries.subscriberId, hstaged.trans hcarries.event⟩

/-- **A stamp that is committed comes with the jobs of the row.** -/
theorem FanOutInv.fannedOut (h : FanOutInv s) (htx : s.txs p = some tx) (htodo : tx.todo = [])
    (hrow : row ∈ s.outbox.rows)
    (hmark : row.id ∈ tx.marks) (hsubscriber : subscriberId ∈ tx.pass.registry.subscribersFor row.eventType) :
    ∃ j ∈ (tx.commit s.db s.outbox).1.jobs.rows, j.Carries row subscriberId := by
  obtain ⟨rows, done, hrows, hdone, hinserts, hmarked⟩ := (h.txs p tx htx).progress
  rw [htodo, List.append_nil] at hdone
  -- the row was read by the pass
  obtain ⟨row₀, hrow₀, hid⟩ := mark_mem_statements.mp (hdone ▸ hmarked row.id hmark)
  obtain ⟨row', hrow', hid', hsame⟩ := hrows row₀ hrow₀
  obtain rfl := Table.eq_of_key_eq hrow' hrow (hid'.trans hid)
  have htype : row₀.eventType = row'.eventType := (congrArg Event.eventType hsame).symm
  obtain ⟨j, hj, hcarries⟩ := hinserts row₀ subscriberId
    (hdone ▸ insert_mem_statements.mpr ⟨hrow₀, htype ▸ hsubscriber⟩)
  refine ⟨j, ?_, hcarries.subscriberId, hcarries.event.trans hsame.symm⟩
  have hcommit : (tx.commit s.db s.outbox).1.jobs.rows = s.db.jobs.rows ++ own s.txs p := h.rows_commit htx
  rw [hcommit, own_of_mem htx]
  exact List.mem_append.mpr hj

/-- **Only a commit stamps**: a row that a step leaves stamped was so before, or its pass commits. -/
theorem stamped_step (hs : s.step a = some s') (hrow : row ∈ s'.outbox.rows) (hstamped : row.relayedAt ≠ none) :
    row ∈ s.outbox.rows ∨ ∃ p, a = .commit p ∧ ∃ tx ∈ s.txs p, tx.todo = [] ∧ row.relayedAt = some tx.pass.now
      ∧ row.id ∈ tx.marks ∧ s'.db = (tx.commit s.db s.outbox).1 ∧ ∃ row₀ ∈ s.outbox.rows,
        SameEvent row₀ row := by
  cases Relaying.moves_of_step hs with
  | call | read | inserted | marked | failed => exact .inl hrow
  | @publish event now outboxId =>
    rcases publish_cases s.outbox event now outboxId with hsame | ⟨hrows, -⟩
    · dsimp only at hrow
      rw [hsame] at hrow
      exact .inl hrow
    · dsimp only at hrow
      rw [hrows] at hrow
      rcases List.mem_append.mp hrow with hrow | hrow
      · exact .inl hrow
      · -- a row that is published has no stamp
        obtain rfl := List.mem_singleton.mp hrow
        exact absurd rfl hstamped
  | @committed p tx htx htodo =>
    dsimp only [RelayTx.commit] at hrow
    rw [rows_marks] at hrow
    obtain ⟨row₀, hrow₀, rfl⟩ := List.mem_map.mp hrow
    by_cases hmark : row₀.id ∈ tx.marks
    · right
      rw [if_pos hmark]
      exact ⟨p, rfl, tx, htx, htodo, rfl, hmark, rfl, row₀, hrow₀, rfl, rfl⟩
    · left
      rwa [if_neg hmark]

/-- There is one job for a work. -/
theorem FanOutInv.unique (h : FanOutInv s) : ∀ j ∈ s.db.jobs.rows, ∀ j' ∈ s.db.jobs.rows, SameWork j j'
    → j = j' :=
  fun _ hj _ hj' hsame => List.inj_on_of_nodup_map h.work.unique hj hj' (Prod.ext hsame.1 hsame.2)

end Steps

/-- **Fan-out, exactly once.** Whatever passes overlap, with or without row locks, wherever one fails, and
however often an event is published again: at most one job is there for each event and subscriber, and it
carries the event of an outbox row; and a row gets its stamp in the commit of a pass that leaves, from then
on, a job with the event of the row for every subscriber that the pass knows. -/
theorem fan_out {s : Relaying} (h : Reaches Relaying.step Relaying.FanOutOk Relaying.init s) :
    (∀ j ∈ s.db.jobs.rows, ∀ j' ∈ s.db.jobs.rows, SameWork j j' → j = j')
      ∧ (∀ j ∈ s.db.jobs.rows, ∃ row ∈ s.outbox.rows, j.staged = eventFrom row)
      ∧ ∀ a s', s.step a = some s' → ∀ row ∈ s'.outbox.rows, row.relayedAt ≠ none →
        row ∈ s.outbox.rows ∨ ∃ p, a = .commit p ∧ ∃ tx ∈ s.txs p, row.relayedAt = some tx.pass.now
          ∧ ∀ subscriberId ∈ tx.pass.registry.subscribersFor row.eventType,
            ∀ s'', Reaches Relaying.step Relaying.FanOutOk s' s'' →
              ∃ j ∈ s''.db.jobs.rows, j.Carries row subscriberId := by
  have hinv : FanOutInv s := h.invariant _ fanOutInv_init fun _ hinv hok hs => fanOutInv_step hinv hok hs
  refine ⟨hinv.unique, hinv.carries, fun a s' hs row hrow hstamped => ?_⟩
  refine (stamped_step hs hrow hstamped).imp_right ?_
  rintro ⟨p, ha, tx, htx, htodo, hnow, hmark, hdb, row₀, hrow₀, hid, hsame⟩
  refine ⟨p, ha, tx, htx, hnow, fun subscriberId hsubscriber s'' hlater => ?_⟩
  have htype : row₀.eventType = row.eventType := (congrArg Event.eventType hsame).symm
  obtain ⟨j, hj, hcarries⟩ := hinv.fannedOut htx htodo hrow₀ (hid ▸ hmark) (htype ▸ hsubscriber)
  refine carried_of_reaches hlater ⟨j, ?_, hcarries.subscriberId, hcarries.event.trans hsame.symm⟩
  rwa [hdb]

namespace Relaying

/-- What is asked of the steps when only the passes below `n` take part, and no other call does. -/
def Among (n : ℕ) (s : Relaying) : RelayStep → Prop
  | .call _ => False
  | .read p _ _ => p < n
  | .next p => p < n ∧ ∀ tx ∈ s.txs p, ∀ statement ∈ tx.todo.head?,
      match statement with
      | .insert row subscriberId =>
        (∀ q < n, q ≠ p → ∀ tx' ∈ s.txs q, ∀ j ∈ tx'.jobs.rows, j.work ≠ (row.eventId, subscriberId))
          ∧ (∀ j ∈ s.db.jobs.rows, j.id ≠ tx.pass.mint row.id subscriberId)
          ∧ ∀ q < n, ∀ j ∈ own s.txs q, j.id ≠ tx.pass.mint row.id subscriberId
      | .mark _ => True
  | .publish .. | .commit _ | .fail _ => True

instance decidableAmong (n : ℕ) (s : Relaying) : (a : RelayStep) → Decidable (s.Among n a)
  | .call _ => inferInstanceAs (Decidable False)
  | .read p _ _ => inferInstanceAs (Decidable (p < n))
  | .next p =>
    have : ∀ tx : RelayTx, DecidablePred fun statement : RelayStatement =>
        match statement with
        | .insert row subscriberId =>
          (∀ q < n, q ≠ p → ∀ tx' ∈ s.txs q, ∀ j ∈ tx'.jobs.rows, j.work ≠ (row.eventId, subscriberId))
            ∧ (∀ j ∈ s.db.jobs.rows, j.id ≠ tx.pass.mint row.id subscriberId)
            ∧ ∀ q < n, ∀ j ∈ own s.txs q, j.id ≠ tx.pass.mint row.id subscriberId
        | .mark _ => True
      | _, .insert _ _ => inferInstanceAs (Decidable (_ ∧ _ ∧ _))
      | _, .mark _ => inferInstanceAs (Decidable True)
    inferInstanceAs (Decidable (_ ∧ ∀ tx ∈ s.txs p, ∀ statement ∈ tx.todo.head?, _))
  | .publish .. | .commit _ | .fail _ => inferInstanceAs (Decidable True)

/-- The passes from `n` on stay closed. -/
theorem closed_step {n : ℕ} {s s' : Relaying} {a : RelayStep} (h : ∀ q, n ≤ q → s.txs q = none)
    (hok : s.Among n a) (hs : s.step a = some s') : ∀ q, n ≤ q → s'.txs q = none := by
  -- the step is of a pass below `n`
  have hupdate {p : ℕ} (hp : p < n) (t : Option RelayTx) (q : ℕ) (hq : n ≤ q) :
      Function.update s.txs p t q = none := by
    rw [Function.update_of_ne (by omega)]
    exact h q hq
  have hclose (p q : ℕ) (hq : n ≤ q) : Function.update s.txs p none q = none := by
    by_cases hqp : q = p
    · rw [hqp, Function.update_self]
    · rw [Function.update_of_ne hqp]
      exact h q hq
  cases moves_of_step hs with
  | call => exact hok.elim
  | publish => exact h
  | read => exact hupdate hok _
  | inserted | marked => exact hupdate hok.1 _
  | committed | failed => exact hclose _

/-- A run among the passes below `n` is one of those that `fan_out` is about. -/
theorem fanOutOk_of_among {n : ℕ} {s : Relaying} {a : RelayStep} (h : ∀ q, n ≤ q → s.txs q = none)
    (hok : s.Among n a) : s.FanOutOk a := by
  have hbelow {q : ℕ} {tx : RelayTx} (htx : tx ∈ s.txs q) : q < n := by
    by_contra hq
    rw [h q (by omega)] at htx
    cases htx
  cases a with
  | call c => exact hok.elim
  | publish _ _ _ | read _ _ _ | commit _ | fail _ =>
    exact ⟨trivial, by rintro p ⟨⟩, by rintro c ⟨⟩⟩
  | next p =>
    have hhead {tx : RelayTx} {row : EventOutbox} {subscriberId : SubscriberId} {todo : List RelayStatement}
        (htx : tx ∈ s.txs p) (htodo : tx.todo = .insert row subscriberId :: todo) :=
      hok.2 tx htx (.insert row subscriberId) (by rw [htodo]; rfl)
    refine ⟨fun tx htx row subscriberId todo htodo => ?_, ?_, by rintro c ⟨⟩⟩
    · rintro ⟨q, hq, tx', htx', j, hj, hevent, hsubscriber⟩
      exact (hhead htx htodo).1 q (hbelow htx') hq tx' htx' j hj (Prod.ext hevent hsubscriber)
    · rintro _ ⟨⟩ tx htx row subscriberId todo htodo
      obtain ⟨-, hjobs, hown⟩ := hhead htx htodo
      refine ⟨hjobs, fun q j hj => ?_⟩
      by_cases hq : q < n
      · exact hown q hq j hj
      · rw [own, h q (by omega)] at hj
        exact absurd hj List.not_mem_nil

/-- A run among the passes below `n` is one of those that `fan_out` is about. -/
theorem fanOut_of_among {n : ℕ} {s : Relaying} (h : Reaches step (Among n) init s) :
    Reaches step FanOutOk init s := by
  have hrun : Reaches step FanOutOk init s ∧ ∀ q, n ≤ q → s.txs q = none := by
    induction h with
    | refl => exact ⟨.refl, fun _ _ => rfl⟩
    | tail _ hok hs ih =>
      exact ⟨ih.1.tail (fanOutOk_of_among ih.2 hok) hs, closed_step ih.2 hok hs⟩
  exact hrun.1

end Relaying

/-- A pass that knows two subscribers. -/
def samplePass (name : String) (now : Instant) : RelayPass where
  registry := ⟨["mailer", "pager"], [("users.created", ["mailer", "pager"])],
    [("mailer", defaultQueue), ("pager", defaultQueue)], rfl, by decide⟩
  maxAttempts := 3
  batchSize := 1
  now := now
  mint outboxId subscriberId := name ++ outboxId ++ subscriberId

/-- An event of the subscribers' type. -/
def sampleCreated (eventId : String) : Event :=
  { eventId, eventType := "users.created", source := "api", timestamp := "", payload := [] }

/-- Two events are published, and one of them again; a pass reads the first and another one the second, and
they take turns. A third pass reads the first again, and fails. -/
def overlappingSteps : List RelayStep :=
  [.publish (sampleCreated "one") 0 "row1", .publish (sampleCreated "two") 1 "row2",
    .publish (sampleCreated "one") 2 "row3", .read 0 (samplePass "a" 5) [], .read 1 (samplePass "b" 6) ["row1"],
    .next 0, .next 1, .next 1, .next 0, .read 2 (samplePass "c" 7) [], .fail 2, .next 1, .commit 1, .next 0]

/-- The state after that. -/
def overlapping : Relaying := runTo Relaying.step (Relaying.Among 3) .init overlappingSteps

/-- When the first pass commits too, its row is stamped, and there are the jobs of both subscribers. -/
theorem fan_out_overlapping : ∃ s', overlapping.step (.commit 0) = some s' ∧
    s'.db.jobs.rows.length = 4 ∧
    ∃ row ∈ s'.outbox.rows, row.id = "row1" ∧ row.relayedAt ≠ none ∧
      (∃ j ∈ s'.db.jobs.rows, j.Carries row "mailer") ∧ ∃ j ∈ s'.db.jobs.rows, j.Carries row "pager" := by
  have hr : Reaches Relaying.step (Relaying.Among 3) .init overlapping := reaches_runTo (by decide +kernel)
  have hread : (overlapping.step (.commit 0)).map (fun s' => (s'.db.jobs.rows.length,
      (s'.outbox.rows.find? (·.id = "row1")).map fun row => (row.eventType, row.relayedAt)))
        = some (4, some ("users.created", some 5)) := by decide +kernel
  obtain ⟨s', hs', hread⟩ := Option.map_eq_some_iff.mp hread
  obtain ⟨hcount, hfind⟩ := Prod.mk.inj hread
  obtain ⟨row, hfind, hrow⟩ := Option.map_eq_some_iff.mp hfind
  obtain ⟨htype, hstamp⟩ := Prod.mk.inj hrow
  have hmem := List.mem_of_find?_eq_some hfind
  have hid : row.id = "row1" := by simpa using List.find?_some hfind
  have hstamped : row.relayedAt ≠ none := by
    rw [hstamp]
    exact Option.some_ne_none _
  refine ⟨s', hs', hcount, row, hmem, hid, hstamped, ?_⟩
  rcases (fan_out (Relaying.fanOut_of_among hr)).2.2 _ s' hs' row hmem hstamped with hold
    | ⟨p, hp, tx, htx, -, hjobs⟩
  · have hunrelayed : ∀ row ∈ overlapping.outbox.rows, row.id = "row1" → row.relayedAt = none := by
      decide +kernel
    exact absurd (hunrelayed row hold hid) hstamped
  · cases hp
    have hknows : (overlapping.txs 0).all (fun tx =>
        decide (tx.pass.registry.subscribersFor "users.created" = ["mailer", "pager"]))
          = true := by decide +kernel
    rw [Option.mem_def.mp htx] at hknows
    have hknows : tx.pass.registry.subscribersFor row.eventType = ["mailer", "pager"] := by
      rw [htype]
      exact of_decide_eq_true hknows
    exact ⟨hjobs "mailer" (by rw [hknows]; decide) s' .refl, hjobs "pager" (by rw [hknows]; decide) s' .refl⟩

end Jasil.Jobs
