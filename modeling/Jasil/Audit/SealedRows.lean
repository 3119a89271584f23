import Jasil.Audit.Retention
import Jasil.Audit.Verification

/-! # What becomes of sealed rows
A window is sealed over its rows. From then on rows only leave it: a batch of a prune takes some of them, a
dropped partition all of them.

* **`SealedOver`**: the rows that a checkpoint was computed from.
* **`Excused`**: some checkpoint allows the window to have been pruned.
* **`AccountInv`**: of the sealed rows of a window all are there, or a checkpoint excuses it.
* **`rows_ok_iff`**: what verification says of such a window depends on how many of its rows are there. -/

namespace Jasil

namespace Table

variable {κ ρ : Type*} {key : ρ → κ} {t : Table key} {p q : ρ → Prop} [DecidablePred p] [DecidablePred q]

/-- A new row is found by the clauses that match it. -/
theorem select_insert [DecidableEq κ] {r : ρ} (hnew : t.get (key r) = none) :
    (t.insert r).select p = t.select p ++ if p r then [r] else [] := by
  rw [select, rows_insert_of_new hnew, List.filter_append, select]
  split <;> simp [*]

/-- Of the rows that a clause matches, a delete leaves some. -/
theorem select_delete_sublist : ((t.delete q).select p).Sublist (t.select p) := List.filter_sublist.filter _

/-- What a statement counts is what it selects. -/
theorem rowcount_eq_length : t.rowcount p = (t.select p).length := List.countP_eq_length_filter

end Table

namespace Audit

/-! ## Windows and their rows -/

/-- The rows of a checkpoint's window. -/
def windowOf (log : LogTable) (c : AuditCheckpoint) : List AuditLog :=
    log.select (InWindow c.windowStart c.windowEnd)

/-- **The rows that a checkpoint was computed from.** -/
structure SealedOver (crypto : Crypto) (c : AuditCheckpoint) (rows : List AuditLog) : Prop where
  rowCount : c.rowCount = rows.length
  hash : c.hash
    = crypto.sha256 (digestStream ((sortBy AuditLog.occurredAt rows).map AuditLog.fetched) c.prevHash)

/-- **Some checkpoint allows the window to have been pruned.** -/
def Excused (cs : List AuditCheckpoint) (c : AuditCheckpoint) : Prop :=
  ∃ c' ∈ cs, 0 < c'.retentionDays ∧ c'.legalHold = false
    ∧ ∃ horizon, retentionHorizon c' = some horizon ∧ c.windowEnd ≤ horizon

/-- What is left of a sealed window: all its rows, or some of them where it is excused. The rows had `P` when
they became visible. -/
def Accounted (P : AuditLog → Prop) (crypto : Crypto) (log : LogTable) (cs : List AuditCheckpoint)
    (c : AuditCheckpoint) : Prop :=
  ∃ rows, SealedOver crypto c rows ∧ (∀ r ∈ rows, P r) ∧ (windowOf log c).Sublist rows
    ∧ (windowOf log c = rows ∨ Excused cs c)

/-- The checkpoint that is sealed but not stored yet. -/
def Phase.pending : Phase → Option AuditCheckpoint
  | .digested _ c => some c
  | .copied _ c => some c
  | _ => none

/-- A row that becomes visible has `P`. -/
def AuditAction.Brings (P : AuditLog → Prop) : AuditAction → Prop
  | .insert r => P r
  | .prune _ _ entry => ∀ cutoff, P (pruneRow entry cutoff)
  | _ => True

/-- Every step brings rows of which nothing is asked. -/
theorem brings_true (a : AuditAction) : a.Brings fun _ => True := by
  cases a <;> simp [AuditAction.Brings]

/-- Every stored window is accounted for, and the one that is sealed has the rows it was sealed over, before
those that came late. -/
structure AccountInv (P : AuditLog → Prop) (crypto : Crypto) (s : AuditState) : Prop where
  retention : RetentionInv s
  rows : ∀ r ∈ s.log.rows, P r
  windows : ∀ c ∈ s.checkpoints.rows, Accounted P crypto s.log s.checkpoints.rows c
  pending : ∀ c ∈ s.phase.pending, ∃ rows late, SealedOver crypto c rows ∧ windowOf s.log c = rows ++ late

section Steps

variable {P : AuditLog → Prop} {crypto : Crypto} {instanceId : String} {s s' : AuditState} {a : AuditAction}
  {log log' : LogTable} {cs cs' : List AuditCheckpoint} {c : AuditCheckpoint} {rows : List AuditLog}

/-- The digest of a window is computed from its rows. -/
theorem digest_window (prevHash : Option String) :
    digest crypto log c.windowStart c.windowEnd prevHash
      = ⟨(windowOf log c).length,
        crypto.sha256 (digestStream ((sortBy AuditLog.occurredAt (windowOf log c)).map AuditLog.fetched)
          prevHash)⟩ := by
  simp only [digest, fetchWindow, windowOf, List.length_map, (sortBy_perm _ _).length_eq]

/-- A window that is sealed is sealed over the rows that are in it. -/
theorem SealedOver.sealWindow (settings : AuditSettings) (start stop : Instant) (prevHash : Option String) :
    SealedOver crypto (sealWindow crypto settings log instanceId start stop prevHash)
      (log.select (InWindow start stop)) := by
  constructor
  · simp [Audit.sealWindow, sealed, digest, fetchWindow, (sortBy_perm _ _).length_eq]
  · rfl

/-- A copy of the checkpoint under another retention is sealed over the same rows. -/
theorem SealedOver.copied {c' : AuditCheckpoint} {signingKey : Option String} {sink sink' : Sink}
    (h : SealedOver crypto c rows) (hcopy : copyToSink crypto signingKey instanceId sink c = .ok (sink', c')) :
    SealedOver crypto c' rows := by
  obtain ⟨-, -, hcount, hhash, hprev⟩ := copyToSink_window hcopy
  constructor
  · rw [hcount, h.rowCount]
  · rw [hhash, h.hash, hprev]

/-- A copy to the sink changes no row of the window. -/
theorem windowOf_copied {c' : AuditCheckpoint} {signingKey : Option String} {sink sink' : Sink}
    (hcopy : copyToSink crypto signingKey instanceId sink c = .ok (sink', c')) :
    windowOf log c' = windowOf log c := by
  obtain ⟨hstart, hstop, -⟩ := copyToSink_window hcopy
  simp only [windowOf, hstart, hstop]

/-! ## What changes a window -/

/-- A row that becomes visible comes last in its window. -/
theorem windowOf_insert {r : AuditLog} (hnew : log.get r.key = none) (c : AuditCheckpoint) :
    ∃ late, windowOf (log.insert r) c = windowOf log c ++ late :=
  ⟨_, Table.select_insert hnew⟩

/-- It is in none of the windows that are sealed. -/
theorem windowOf_insert_of_le {r : AuditLog} (hnew : log.get r.key = none) (hle : c.windowEnd ≤ r.occurredAt) :
    windowOf (log.insert r) c = windowOf log c := by
  have hout : ¬InWindow c.windowStart c.windowEnd r := fun hin => absurd hin.2 (not_lt.mpr hle)
  rw [windowOf, Table.select_insert hnew, if_neg hout, List.append_nil, windowOf]

/-- An excuse stays one when checkpoints are added. -/
theorem Excused.mono (h : Excused cs c) (hsub : cs ⊆ cs') : Excused cs' c := by
  obtain ⟨c', hc', hexcuse⟩ := h
  exact ⟨c', hsub hc', hexcuse⟩

/-- How far retention reaches is excused by the newest checkpoint. -/
theorem excused_of_reached {checkpoints : CheckpointTable} {now reached : Instant} {settings : AuditSettings}
    (hreached : retentionCutoff now settings checkpoints = .ok (some reached)) (hle : c.windowEnd ≤ reached) :
    Excused checkpoints.rows c := by
  obtain ⟨-, -, -, last, hnewest, hhold, hdays, hhorizon, hlast⟩ := retentionCutoff_some hreached
  refine ⟨last, ?_, hdays, hhold, _, hhorizon, hle.trans hlast⟩
  exact mem_sortBy.mp (List.mem_of_getLast? hnewest)

/-- A window that is accounted for stays so while its rows are unchanged. -/
theorem Accounted.mono (h : Accounted P crypto log cs c) (hwindow : windowOf log' c = windowOf log c)
    (hsub : cs ⊆ cs') : Accounted P crypto log' cs' c := by
  obtain ⟨rows, hsealed, hrows, hleft, hall⟩ := h
  rw [← hwindow] at hleft hall
  exact ⟨rows, hsealed, hrows, hleft, hall.imp id fun hexcused => hexcused.mono hsub⟩

/-- An excused window may lose rows. -/
theorem Accounted.lose (h : Accounted P crypto log cs c) (hleft : (windowOf log' c).Sublist (windowOf log c))
    (hexcused : Excused cs c) : Accounted P crypto log' cs c := by
  obtain ⟨rows, hsealed, hrows, hsub, -⟩ := h
  exact ⟨rows, hsealed, hrows, hleft.trans hsub, .inr hexcused⟩

/-- A batch takes no row of a window that ends after the cutoff. -/
theorem windowOf_deleteBatch {cutoff : Instant} {page : List (String × Instant)}
    (hlinked : Linked s.checkpoints.rows) (hids : (s.log.rows.map AuditLog.id).Nodup)
    (hcutoff : ∃ w ∈ s.checkpoints.rows, w.windowStart = cutoff)
    (hpage : s.log.IsPage (OlderThan cutoff) pruneBatchSize page) (hc : c ∈ s.checkpoints.rows)
    (hend : ¬c.windowEnd ≤ cutoff) : windowOf (s.log.deletePage AuditLog.id page) c = windowOf s.log c := by
  obtain ⟨w, hw, rfl⟩ := hcutoff
  -- the cutoff is the start of a sealed window, so this window starts there or later
  have hstart : w.windowStart ≤ c.windowStart := by
    by_contra hlt
    exact hend (hlinked.adjacent.stop_le_start hc hw (not_le.mp hlt))
  refine Table.select_delete_of_disjoint fun r hr hin hgone => ?_
  have hkept : r ∉ (s.log.deletePage AuditLog.id page).rows := fun hmem => (Table.mem_delete.mp hmem).2 hgone
  exact absurd (deleted_older hids hpage hr hkept) (not_lt.mpr (hstart.trans hin.1))

/-- The partition of a day holds all rows of a window or none, as no window lies on two days. -/
theorem windowOf_dropPartition {dayNumber : ℤ} (hfits : WindowFits c.windowStart c.windowEnd) :
    windowOf (log.delete (OnDay dayNumber)) c
      = if c.windowStart / day = dayNumber then [] else windowOf log c := by
  have hsame {r : AuditLog} (hin : InWindow c.windowStart c.windowEnd r) :
      r.occurredAt / day = c.windowStart / day := by
    have hle : c.windowStart / day ≤ r.occurredAt / day := Int.ediv_le_ediv (by decide) hin.1
    have hlt : r.occurredAt / day < c.windowStart / day + 1 :=
      Int.ediv_lt_of_lt_mul (by decide) (hin.2.trans_le hfits.oneDay)
    exact le_antisymm (Int.lt_add_one_iff.mp hlt) hle
  split
  · rename_i hday
    refine List.filter_eq_nil_iff.mpr fun r hr hin => ?_
    have hin := of_decide_eq_true hin
    exact (Table.mem_delete.mp hr).2 ((hsame hin).trans hday)
  · rename_i hday
    exact Table.select_delete_of_disjoint fun r _ hin hon => hday ((hsame hin).symm.trans hon)

/-- **A batch only takes rows of excused windows.** -/
theorem accounted_deleteBatch {run : PruneRun} {page : List (String × Instant)}
    (hlinked : Linked s.checkpoints.rows) (hids : (s.log.rows.map AuditLog.id).Nodup) (hrun : PruneOk s run)
    (hpage : s.log.IsPage (OlderThan run.cutoff) pruneBatchSize page) (hc : c ∈ s.checkpoints.rows)
    (h : Accounted P crypto s.log s.checkpoints.rows c) :
    Accounted P crypto (s.log.deletePage AuditLog.id page) s.checkpoints.rows c := by
  obtain ⟨reached, hreached, w, hw, hcutoff, hle⟩ := hrun.cutoff
  by_cases hend : c.windowEnd ≤ run.cutoff
  · exact h.lose Table.select_delete_sublist (excused_of_reached hreached (hend.trans hle))
  · exact h.mono (windowOf_deleteBatch hlinked hids ⟨w, hw, hcutoff⟩ hpage hc hend) (List.Subset.refl _)

/-- **A dropped partition only takes rows of excused windows.** -/
theorem accounted_dropPartition {now databaseNow cutoff : Instant} {settings : AuditSettings} {dayNumber : ℤ}
    (hfits : WindowFits c.windowStart c.windowEnd)
    (hcutoff : partitionCutoff now databaseNow settings s.checkpoints = .ok (some cutoff))
    (hday : (dayNumber + 1) * day ≤ cutoff) (h : Accounted P crypto s.log s.checkpoints.rows c) :
    Accounted P crypto (s.log.delete (OnDay dayNumber)) s.checkpoints.rows c := by
  obtain ⟨reached, hreached, hle⟩ := partitionCutoff_some hcutoff
  by_cases hon : c.windowStart / day = dayNumber
  · subst hon
    exact h.lose Table.select_delete_sublist (excused_of_reached hreached ((hfits.oneDay.trans hday).trans hle))
  · exact h.mono ((windowOf_dropPartition hfits).trans (if_neg hon)) (List.Subset.refl _)

/-! ## Every history -/

/-- A fresh installation is accounted for. -/
theorem accountInv_initial (sink : Sink) : AccountInv P crypto (AuditState.initial sink) := by
  refine ⟨retentionInv_initial sink, ?_, ?_, ?_⟩
  · intro r hr
    exact absurd hr List.not_mem_nil
  · intro c hc
    exact absurd hc List.not_mem_nil
  · rintro c ⟨⟩

/-- An insert keeps a property that the new row has. -/
theorem rows_insert {r : AuditLog} (hnew : log.get r.key = none) (h : ∀ r' ∈ log.rows, P r') (hr : P r) :
    ∀ r' ∈ (log.insert r).rows, P r' := by
  rw [Table.rows_insert_of_new hnew, List.forall_mem_append]
  exact ⟨h, by simpa using hr⟩

/-- Without late rows a checkpoint is sealed over what its window holds. -/
theorem sealedOver_window (hpending : ∃ rows late, SealedOver crypto c rows ∧ windowOf log c = rows ++ late)
    (hcount : (log.rowcount (InWindow c.windowStart c.windowEnd) : ℤ) = c.rowCount) :
    SealedOver crypto c (windowOf log c) := by
  obtain ⟨rows, late, hsealed, hwindow⟩ := hpending
  have hlate : late = [] := by
    rw [hsealed.rowCount, Table.rowcount_eq_length] at hcount
    have hlength := congrArg List.length hwindow
    rw [List.length_append, windowOf] at hlength
    exact List.eq_nil_of_length_eq_zero (by omega)
  rwa [hwindow, hlate, List.append_nil]

/-- **Every step of a timely history keeps the account.** -/
theorem accountInv_step (h : AccountInv P crypto s) (hok : Timely s a) (hbrings : a.Brings P)
    (hstep : auditStep crypto instanceId s a = some s') : AccountInv P crypto s' := by
  have hretention := retentionInv_step h.retention hok hstep
  cases auditStep_cases hstep with
  | insert hnew hat =>
    refine ⟨hretention, rows_insert hnew h.rows hbrings, fun c hc => ?_, fun c hc => ?_⟩
    · exact (h.windows c hc).mono (windowOf_insert_of_le hnew (hok.1 c hc)) (List.Subset.refl _)
    · obtain ⟨rows, late, hsealed, hwindow⟩ := h.pending c hc
      obtain ⟨later, hlater⟩ := windowOf_insert hnew c
      exact ⟨rows, late ++ later, hsealed, by rw [hlater, hwindow, List.append_assoc]⟩
  | beginSeal hphase hnow =>
    refine ⟨hretention, h.rows, h.windows, fun c hc => ?_⟩
    -- a run that starts has sealed nothing
    dsimp only [beginSeal] at hc
    split at hc <;> cases hc
  | @digest run hphase hdue =>
    refine ⟨hretention, h.rows, h.windows, ?_⟩
    rintro c ⟨⟩
    exact ⟨_, [], SealedOver.sealWindow .., by rw [List.append_nil]; rfl⟩
  | noSink hphase hsink =>
    refine ⟨hretention, h.rows, h.windows, ?_⟩
    rintro c ⟨⟩
    exact h.pending _ (by rw [hphase]; rfl)
  | copied hphase hsink hcopy =>
    refine ⟨hretention, h.rows, h.windows, ?_⟩
    rintro c ⟨⟩
    obtain ⟨rows, late, hsealed, hwindow⟩ := h.pending _ (by rw [hphase]; rfl)
    exact ⟨rows, late, hsealed.copied hcopy, (windowOf_copied hcopy).trans hwindow⟩
  | @store run c hphase hnew =>
    rw [Timely, hphase] at hok
    have hrows := Table.rows_insert_of_new hnew
    refine ⟨hretention, h.rows, fun c' hc' => ?_, ?_⟩
    · dsimp only at hc' ⊢
      rw [hrows] at hc' ⊢
      rcases List.mem_append.mp hc' with hold | hnew'
      · exact (h.windows c' hold).mono rfl (List.subset_append_left _ _)
      · obtain rfl := List.mem_singleton.mp hnew'
        have hsealed := sealedOver_window (h.pending _ (by rw [hphase]; rfl)) hok.1
        exact ⟨_, hsealed, fun r hr => h.rows r (Table.mem_select.mp hr).1, .refl _, .inl rfl⟩
    · rintro c' ⟨⟩
  | @prune now settings entry cutoff hphase hcutoff hnew hat =>
    refine ⟨hretention, rows_insert (r := pruneRow entry cutoff) hnew h.rows (hbrings cutoff), fun c hc => ?_,
      ?_⟩
    · have hwindow := windowOf_insert_of_le (r := pruneRow entry cutoff) hnew (hok.1 c hc)
      exact (h.windows c hc).mono hwindow (List.Subset.refl _)
    · rintro c ⟨⟩
  | pruneNothing hphase hcutoff => exact h
  | deleteBatch hphase hpage =>
    refine ⟨hretention, fun r hr => h.rows r (Table.mem_delete.mp hr).1, fun c hc => ?_, fun c hc => ?_⟩
    · exact accounted_deleteBatch h.retention.chain.linked h.retention.ids (h.retention.pruning _ hphase)
        hpage hc
        (h.windows c hc)
    · dsimp only at hc
      split at hc <;> cases hc
  | dropPartition hphase hcutoff hday =>
    refine ⟨hretention, fun r hr => h.rows r (Table.mem_delete.mp hr).1, fun c hc => ?_, fun c hc => ?_⟩
    · exact accounted_dropPartition (h.retention.chain.linked.fits c hc) hcutoff hday (h.windows c hc)
    · rw [hphase] at hc
      cases hc
  | copyFailed | finishSeal | stop =>
    refine ⟨hretention, h.rows, h.windows, ?_⟩
    rintro c ⟨⟩

/-- In every run whose inserts are timely every window is accounted for. -/
theorem accountInv_reaches {ok : AuditState → AuditAction → Prop} (hok : ∀ s a, ok s a → Timely s a ∧ a.Brings P)
    {sink : Sink} (h : Reaches (auditStep crypto instanceId) ok (AuditState.initial sink) s) :
    AccountInv P crypto s :=
  h.invariant _ (accountInv_initial sink) fun _ hinv ha hstep =>
    accountInv_step hinv (hok _ _ ha).1 (hok _ _ ha).2 hstep

end Steps

/-! ## What verification says of a window -/

section Verdicts

variable {P : AuditLog → Prop} {crypto : Crypto} {log : LogTable} {checkpoints : CheckpointTable}
  {verifiers : Verifiers} {instanceId : String} {c : AuditCheckpoint}

/-- When every checkpoint counts, the horizon reaches as far as any of them allows. -/
theorem le_pruningHorizon (htrusted : ∀ c ∈ checkpoints.rows, Trusted crypto verifiers instanceId c)
    (hexcused : Excused checkpoints.rows c) :
    ∃ horizon ∈ pruningHorizon crypto checkpoints verifiers instanceId, c.windowEnd ≤ horizon := by
  obtain ⟨c', hc', hdays, hhold, horizon, hhorizon, hle⟩ := hexcused
  unfold pruningHorizon
  dsimp only
  -- the first candidate counts, and none lies further
  generalize hcandidates : sortBy (fun candidate : Instant × AuditCheckpoint => -candidate.1) _ = candidates
  have hsorted := hcandidates ▸ pairwise_sortBy (fun candidate : Instant × AuditCheckpoint => -candidate.1) _
  have hmem : (horizon, c') ∈ candidates := by
    rw [← hcandidates, mem_sortBy, List.mem_filterMap]
    exact ⟨c', Table.mem_select.mpr ⟨hc', hdays, hhold⟩, by rw [hhorizon]; rfl⟩
  have hall : ∀ candidate ∈ candidates, Trusted crypto verifiers instanceId candidate.2 := by
    intro candidate hcandidate
    rw [← hcandidates, mem_sortBy, List.mem_filterMap] at hcandidate
    obtain ⟨c'', hc'', heq⟩ := hcandidate
    obtain ⟨h, -, rfl⟩ := Option.map_eq_some_iff.mp heq
    exact htrusted c'' (Table.mem_select.mp hc'').1
  cases candidates with
  | nil => exact absurd hmem List.not_mem_nil
  | cons first rest =>
    refine ⟨first.1, ?_, hle.trans ?_⟩
    · rw [List.find?_cons_of_pos (by simpa using hall first List.mem_cons_self)]
      rfl
    · rcases List.mem_cons.mp hmem with rfl | hrest
      · exact le_rfl
      · exact neg_le_neg_iff.mp ((List.pairwise_cons.mp hsorted).1 _ hrest)

/-- A window that still has the rows it was sealed over matches them. -/
theorem rowsMatch_of_window {rows : List AuditLog} (hsealed : SealedOver crypto c rows)
    (hwindow : windowOf log c = rows) :
    RowsMatch crypto log c := by
  rw [RowsMatch, digest_window, hwindow, hsealed.rowCount, hsealed.hash]

/-- A window with as many rows as were sealed has the rows that were sealed. -/
theorem Accounted.rowsMatch {cs : List AuditCheckpoint} (h : Accounted P crypto log cs c)
    (hcount : (log.rowcount (InWindow c.windowStart c.windowEnd) : ℤ) = c.rowCount) :
    RowsMatch crypto log c := by
  obtain ⟨rows, hsealed, -, hleft, -⟩ := h
  rw [hsealed.rowCount, Table.rowcount_eq_length] at hcount
  exact rowsMatch_of_window hsealed (hleft.eq_of_length (Int.ofNat_inj.mp hcount))

/-- An excused window without rows is in order. -/
theorem Accounted.pruned (htrusted : ∀ c ∈ checkpoints.rows, Trusted crypto verifiers instanceId c)
    (h : Accounted P crypto log checkpoints.rows c) (hzero : windowOf log c = []) :
    RowsMatch crypto log c ∨ Pruned crypto log (pruningHorizon crypto checkpoints verifiers instanceId) c := by
  obtain ⟨rows, hsealed, -, -, hall⟩ := h
  rcases hall with hall | hexcused
  · exact .inl (rowsMatch_of_window hsealed hall)
  by_cases hempty : rows = []
  · -- the window was sealed without rows
    exact .inl (rowsMatch_of_window hsealed (hzero.trans hempty.symm))
  right
  have hcount := hsealed.rowCount
  have hpos : 0 < rows.length := List.length_pos_iff.mpr hempty
  refine ⟨fun hrows => ?_, ?_, by omega, le_pruningHorizon htrusted hexcused⟩
  · rw [RowsMatch, digest_window, hzero] at hrows
    have hnone : (0 : ℤ) = c.rowCount := congrArg Digest.rowCount hrows
    omega
  · rw [digest_window, hzero]
    rfl

/-- **A window that is accounted for is in order exactly when all its rows are there or none is.** -/
theorem rows_ok_iff (htrusted : ∀ c ∈ checkpoints.rows, Trusted crypto verifiers instanceId c)
    (h : Accounted P crypto log checkpoints.rows c) :
    (RowsMatch crypto log c ∨ Pruned crypto log (pruningHorizon crypto checkpoints verifiers instanceId) c)
      ↔ log.rowcount (InWindow c.windowStart c.windowEnd) = 0
        ∨ (log.rowcount (InWindow c.windowStart c.windowEnd) : ℤ) = c.rowCount := by
  have hcount : log.rowcount (InWindow c.windowStart c.windowEnd) = (windowOf log c).length :=
      Table.rowcount_eq_length
  constructor
  · rintro (hrows | ⟨-, hzero, -⟩)
    · right
      rw [RowsMatch, digest_window, ← hcount] at hrows
      exact congrArg Digest.rowCount hrows
    · left
      rw [digest_window, ← hcount] at hzero
      exact Int.ofNat_eq_zero.mp hzero
  · rintro (hzero | hsame)
    · exact h.pruned htrusted (List.eq_nil_of_length_eq_zero (hcount ▸ hzero))
    · exact .inl (h.rowsMatch hsame)

end Verdicts

end Audit

end Jasil
