import Jasil.Audit.SealedRows
import Jasil.Audit.SinkCopies

/-! # The sink and the database in lockstep
A window is copied to the sink before its checkpoint is stored, so a run that stops in between leaves the sink
one window ahead. The next run takes the copy over, whatever the retention is by then.

* **`Steady`**: a sink from the first run on, one signing key, one window length, and no row that becomes
  visible in a window that is copied already.
* **`Ahead`**: the copy that the database does not have yet is of the window that comes next, and could be
  made again.
* **`sink_lockstep`**: what the sink holds in every such history, and that a copy never conflicts. -/

namespace Jasil.Audit

/-! ## Histories -/

/-- The row is dated after every window whose copy is in the sink. -/
def AfterCopies (instanceId : String) (s : AuditState) (r : AuditLog) : Prop :=
  ∀ c : AuditCheckpoint, (sinkName c.windowStart instanceId, sinkPayload c instanceId) ∈ s.sink.rows →
    c.windowEnd ≤ r.occurredAt

/-- **Every run seals into the sink with one key and one window length**, and the rows of a window that is
copied stay as they are. The retention may change from run to run. -/
def Steady (instanceId : String) (signingKey : Option String) (window : ℤ) (s : AuditState) : AuditAction → Prop
  | .insert r => AfterCopies instanceId s r
  | .prune _ _ entry => AfterCopies instanceId s entry
  | .beginSeal _ settings hasSink =>
    settings.1.signingKey = signingKey ∧ settings.1.window = window ∧ hasSink = true
  | .copy =>
    match s.phase with
    | .digested _ c => NoneLate s c
    | _ => True
  | _ => True

/-! ## The invariant -/

/-- The run seals into the sink, with this key and this window length. -/
structure SteadyRun (signingKey : Option String) (window : ℤ) (run : SealRun) : Prop where
  signingKey : run.settings.1.signingKey = signingKey
  window : run.settings.1.window = window
  hasSink : run.hasSink = true

/-- Some row lies in the first window if it starts there. -/
def StartsBefore (log : LogTable) (window start : ℤ) : Prop :=
    ∃ r ∈ log.rows, firstStart r.occurredAt window = start

/-- The checkpoint of the window that comes next in the chain, sealed over the rows the window holds. -/
structure Ahead (crypto : Crypto) (instanceId : String) (signingKey : Option String) (window : ℤ)
    (log : LogTable) (cs : List AuditCheckpoint) (c : AuditCheckpoint) : Prop where
  next : ∀ last ∈ cs.getLast?, last.windowEnd = c.windowStart ∧ c.prevHash = some last.hash
  first : cs = [] →
    c.prevHash = none ∧ StartsBefore log window c.windowStart ∧ ∀ r ∈ log.rows, c.windowStart ≤ r.occurredAt
  stop : c.windowEnd = windowEnd c.windowStart window
  window_pos : 0 < window
  signed : SignedWith crypto signingKey instanceId c
  rows : SealedOver crypto c (windowOf log c)
  fits : WindowFits c.windowStart c.windowEnd

/-- What the run in progress has done so far. -/
def RunOk (crypto : Crypto) (instanceId : String) (signingKey : Option String) (window : ℤ)
    (s : AuditState) : Prop :=
  match s.phase with
  | .sealing run =>
    SteadyRun signingKey window run ∧ (s.checkpoints.rows = [] → StartsBefore s.log window run.start)
  | .digested run c =>
    SteadyRun signingKey window run ∧ (s.checkpoints.rows = [] → StartsBefore s.log window run.start)
      ∧ SignedWith crypto signingKey instanceId c
      ∧ ∃ rows late, SealedOver crypto c rows ∧ windowOf s.log c = rows ++ late
  | .copied run c =>
    SteadyRun signingKey window run ∧ Ahead crypto instanceId signingKey window s.log s.checkpoints.rows c
      ∧ (sinkName c.windowStart instanceId, sinkPayload c instanceId) ∈ s.sink.rows
  | .idle | .pruning _ => True

/-- **The sink holds every stored checkpoint, and nothing else but the copy of the window that comes next.** -/
structure Lockstep (crypto : Crypto) (instanceId : String) (signingKey : Option String) (window : ℤ)
    (s : AuditState) : Prop where
  retention : RetentionInv s
  stored : ∀ c ∈ s.checkpoints.rows, (sinkName c.windowStart instanceId, sinkPayload c instanceId) ∈ s.sink.rows
  objects : ∀ object ∈ s.sink.rows, (∃ c ∈ s.checkpoints.rows, object.1 = sinkName c.windowStart instanceId)
    ∨ ∃ c, object = (sinkName c.windowStart instanceId, sinkPayload c instanceId)
      ∧ Ahead crypto instanceId signingKey window s.log s.checkpoints.rows c
  run : RunOk crypto instanceId signingKey window s

-- only what `SinkCopies` says of a document matters from here on
attribute [local irreducible] sinkPayload

section Next

variable {crypto : Crypto} {instanceId : String} {signingKey : Option String} {window : ℤ} {log log' : LogTable}
  {cs : List AuditCheckpoint} {c c' : AuditCheckpoint}

/-- **The window that comes next is determined**, and so is what it is sealed to but for the retention. -/
theorem Ahead.sameWindow (h : Ahead crypto instanceId signingKey window log cs c)
    (h' : Ahead crypto instanceId signingKey window log cs c') : SameWindow c c' := by
  have hstart : c.windowStart = c'.windowStart ∧ c.prevHash = c'.prevHash := by
    cases hlast : cs.getLast? with
    | some last =>
      obtain ⟨hend, hprev⟩ := h.next last hlast
      obtain ⟨hend', hprev'⟩ := h'.next last hlast
      exact ⟨hend.symm.trans hend', hprev.trans hprev'.symm⟩
    | none =>
      obtain rfl := List.getLast?_eq_none_iff.mp hlast
      obtain ⟨hprev, ⟨r, hr, hfirst⟩, hle⟩ := h.first rfl
      obtain ⟨hprev', ⟨r', hr', hfirst'⟩, hle'⟩ := h'.first rfl
      -- both start at the last multiple of the length up to the oldest row
      refine ⟨le_antisymm ?_ ?_, hprev.trans hprev'.symm⟩
      · rw [← hfirst']
        exact le_firstStart_of_dvd h.window_pos (hfirst ▸ dvd_firstStart _) (hle r' hr')
      · rw [← hfirst]
        exact le_firstStart_of_dvd h.window_pos (hfirst' ▸ dvd_firstStart _) (hle' r hr)
  have hstop : c.windowEnd = c'.windowEnd := by rw [h.stop, h'.stop, hstart.1]
  have hwindow : windowOf log c = windowOf log c' := by simp only [windowOf, hstart.1, hstop]
  refine ⟨hstart.1, hstop, ?_, ?_, hstart.2⟩
  · rw [h.rows.rowCount, h'.rows.rowCount, hwindow]
  · rw [h.rows.hash, h'.rows.hash, hwindow, hstart.2]

/-- A row that is inserted where there is none keeps the start of the first window. -/
theorem StartsBefore.insert {r : AuditLog} {start : ℤ} (hnew : log.get r.key = none)
    (h : StartsBefore log window start) : StartsBefore (log.insert r) window start := by
  obtain ⟨r', hr', hfirst⟩ := h
  exact ⟨r', mem_insert_of_mem hnew hr', hfirst⟩

/-- A row dated after the window changes nothing. -/
theorem Ahead.insert {r : AuditLog} (h : Ahead crypto instanceId signingKey window log cs c)
    (hnew : log.get r.key = none) (hle : c.windowEnd ≤ r.occurredAt) :
    Ahead crypto instanceId signingKey window (log.insert r) cs c := by
  refine ⟨h.next, fun hnil => ?_, h.stop, h.window_pos, h.signed, ?_, h.fits⟩
  · obtain ⟨hprev, hstarts, hrows⟩ := h.first hnil
    exact ⟨hprev, hstarts.insert hnew, oldest_insert hnew hrows (h.fits.nonempty.le.trans hle)⟩
  · rw [windowOf_insert_of_le hnew hle]
    exact h.rows

/-- Deleting rows dated before the window changes nothing, once the chain has started. -/
theorem Ahead.delete (h : Ahead crypto instanceId signingKey window log cs c) (hcs : cs ≠ [])
    (hwindow : windowOf log' c = windowOf log c) : Ahead crypto instanceId signingKey window log' cs c := by
  refine ⟨h.next, fun hnil => absurd hnil hcs, h.stop, h.window_pos, h.signed, ?_, h.fits⟩
  rw [hwindow]
  exact h.rows

/-- What comes next starts where the last window ends. -/
theorem Ahead.stop_le_start (h : Ahead crypto instanceId signingKey window log cs c) (hlinked : Linked cs)
    (hc' : c' ∈ cs) : c'.windowEnd ≤ c.windowStart := by
  have hlast := List.getLast?_eq_some_getLast (List.ne_nil_of_mem hc')
  exact (hlinked.adjacent.stop_le_last hc' hlast).trans_eq (h.next _ hlast).1

end Next

section Steps

variable {crypto : Crypto} {instanceId : String} {signingKey : Option String} {window : ℤ} {s s' : AuditState}
  {a : AuditAction} {run : SealRun} {c : AuditCheckpoint}

/-- **A window hashed without late rows is the one that comes next.** -/
theorem ahead_of_digested (h : Lockstep crypto instanceId signingKey window s)
    (hphase : s.phase = .digested run c)
    (hlate : NoneLate s c) : Ahead crypto instanceId signingKey window s.log s.checkpoints.rows c := by
  have hresumes := h.retention.chain.phase
  have hrun := h.run
  rw [hphase] at hresumes
  rw [RunOk, hphase] at hrun
  obtain ⟨hresumes, hsealed⟩ := hresumes
  obtain ⟨hsteady, hstarts, hsigned, hrows⟩ := hrun
  refine ⟨fun last hlast => ?_, fun hnil => ⟨?_, ?_, hlate.2 hnil⟩, ?_, ?_, hsigned,
    sealedOver_window hrows hlate.1,
    hsealed.fits hresumes⟩
  · rw [hsealed.start, hsealed.prevHash]
    exact hresumes.next last hlast
  · rw [hsealed.prevHash]
    exact hresumes.first hnil
  · rw [hsealed.start]
    exact hstarts hnil
  · rw [hsealed.stop, hsealed.start, SealRun.stop, hsteady.window]
  · rw [← hsteady.window]
    exact run.settings.window_dvd_day.1

/-- What the copy of the next window comes to: the object that is in the sink already, or a new one. -/
inductive Copied (instanceId : String) (sink : Sink) (c : AuditCheckpoint) : Sink × AuditCheckpoint → Prop
  | already {c' : AuditCheckpoint}
    (hread : sink.read (sinkName c.windowStart instanceId) = some (sinkPayload c' instanceId)) :
    Copied instanceId sink c (sink, c')
  | new (hread : sink.read (sinkName c.windowStart instanceId) = none) :
    Copied instanceId sink c (sink.insert (sinkName c.windowStart instanceId, sinkPayload c instanceId), c)

/-- **The copy of the next window never conflicts.** -/
theorem copyToSink_ok (h : Lockstep crypto instanceId signingKey window s)
    (hc : Ahead crypto instanceId signingKey window s.log s.checkpoints.rows c)
    (hname : ValidName (sinkName c.windowStart instanceId)) :
    ∃ sink c', copyToSink crypto signingKey instanceId s.sink c = .ok (sink, c')
      ∧ Ahead crypto instanceId signingKey window s.log s.checkpoints.rows c' ∧ c'.windowStart = c.windowStart
      ∧ Copied instanceId s.sink c (sink, c') := by
  cases hread : s.sink.read (sinkName c.windowStart instanceId) with
  | none => exact ⟨_, c, copyToSink_of_absent hname hread, hc, rfl, .new hread⟩
  | some content =>
    have hlinked := h.retention.chain.linked
    rcases h.objects _ (Sink.read_eq_some.mp hread) with ⟨c₀, hc₀, hsame⟩ | ⟨c₀, hobject, hahead⟩
    · -- a stored window is not the next one
      have hfits := hlinked.fits c₀ hc₀
      have hstart := sinkName_inj hc.fits.start_representable hfits.start_representable hc.fits.start_minute
        hfits.start_minute hsame
      exact absurd (hc.stop_le_start hlinked hc₀) (not_le.mpr (hstart ▸ hfits.nonempty))
    · have hwindow := hc.sameWindow hahead
      have hcontent : content = sinkPayload c₀ instanceId := congrArg Prod.snd hobject
      subst hcontent
      exact ⟨_, c₀, copyToSink_of_copy hname hwindow hc.signed hahead.signed hread, hahead, hwindow.start.symm,
        .already hread⟩

/-- A fresh installation and an empty sink agree. -/
theorem lockstep_initial : Lockstep crypto instanceId signingKey window (AuditState.initial Table.empty) := by
  refine ⟨retentionInv_initial _, ?_, ?_, trivial⟩
  · intro c hc
    exact absurd hc List.not_mem_nil
  · intro object hobject
    exact absurd hobject List.not_mem_nil

/-- A row that becomes visible, dated after every copy. -/
theorem lockstep_insert {r : AuditLog} {phase : Phase} (h : Lockstep crypto instanceId signingKey window s)
    (hretention : RetentionInv { s with log := s.log.insert r, phase := phase }) (hnew : s.log.get r.key = none)
    (hafter : AfterCopies instanceId s r)
    (hrun : RunOk crypto instanceId signingKey window { s with log := s.log.insert r, phase := phase }) :
    Lockstep crypto instanceId signingKey window { s with log := s.log.insert r, phase := phase } := by
  refine ⟨hretention, h.stored, fun object hobject => ?_, hrun⟩
  refine (h.objects object hobject).imp id ?_
  rintro ⟨c, rfl, hahead⟩
  exact ⟨c, rfl, hahead.insert hnew (hafter c hobject)⟩

/-- Rows that go lie in windows that are stored. -/
theorem lockstep_delete {log : LogTable} {phase : Phase} {cutoff : Instant}
    (h : Lockstep crypto instanceId signingKey window s)
    (hretention : RetentionInv { s with log := log, phase := phase })
    (hrun : RunOk crypto instanceId signingKey window { s with log := log, phase := phase })
    (hcutoff : ∃ c ∈ s.checkpoints.rows, cutoff ≤ c.windowEnd)
    (hlater : ∀ c, cutoff ≤ c.windowStart → windowOf log c = windowOf s.log c) :
    Lockstep crypto instanceId signingKey window { s with log := log, phase := phase } := by
  obtain ⟨w, hw, hle⟩ := hcutoff
  refine ⟨hretention, h.stored, fun object hobject => ?_, hrun⟩
  refine (h.objects object hobject).imp id ?_
  rintro ⟨c, rfl, hahead⟩
  have hstart := hahead.stop_le_start h.retention.chain.linked hw
  exact ⟨c, rfl, hahead.delete (List.ne_nil_of_mem hw) (hlater c (hle.trans hstart))⟩

/-- **Every step of a steady history keeps the sink and the database in lockstep.** -/
theorem lockstep_step (h : Lockstep crypto instanceId signingKey window s) (hok : Timely s a)
    (hsteady : Steady instanceId signingKey window s a) (hstep : auditStep crypto instanceId s a = some s') :
    Lockstep crypto instanceId signingKey window s' := by
  have hretention := retentionInv_step h.retention hok hstep
  have hrun := h.run
  unfold RunOk at hrun
  cases auditStep_cases hstep with
  | @insert r hnew hat =>
    -- the row is later than the windows that are copied
    refine lockstep_insert h hretention hnew hsteady ?_
    unfold RunOk
    cases hphase : s.phase <;> rw [hphase] at hrun <;> dsimp only at hrun ⊢
    case sealing run => exact ⟨hrun.1, fun hnil => (hrun.2 hnil).insert hnew⟩
    case digested run c =>
      obtain ⟨hs, hstarts, hsigned, rows, late, hsealed, hwindow⟩ := hrun
      obtain ⟨later, hlater⟩ := windowOf_insert hnew c
      refine ⟨hs, fun hnil => (hstarts hnil).insert hnew, hsigned, rows, late ++ later, hsealed, ?_⟩
      rw [hlater, hwindow, List.append_assoc]
    case copied run c => exact ⟨hrun.1, hrun.2.1.insert hnew (hsteady c hrun.2.2), hrun.2.2⟩
  | @beginSeal now settings hasSink hphase hnow =>
    refine ⟨hretention, h.stored, h.objects, ?_⟩
    obtain ⟨hkey, hlength, hsink⟩ := hsteady
    -- without a window that is due nothing is copied
    cases hresume : resumeAt s.log s.checkpoints now settings.1.window with
    | error e => simp only [RunOk, beginSeal, hresume]
    | ok resumed =>
      cases resumed with
      | none => simp only [RunOk, beginSeal, hresume]
      | some resumed =>
        obtain ⟨start, prevHash⟩ := resumed
        simp only [RunOk, beginSeal, hresume]
        refine ⟨⟨hkey, hlength, hsink⟩, fun hnil => ?_⟩
        rcases resumeAt_ok hresume with ⟨last, hlast, -⟩ | ⟨-, first, hfirst, rfl⟩
        · rw [h.retention.chain.linked.newest, hnil] at hlast
          cases hlast
        · -- the first window starts at the oldest row
          obtain ⟨r, hr, rfl⟩ := oldest_mem hfirst
          exact ⟨r, hr, by rw [hlength]⟩
  | @digest run hphase hdue =>
    rw [hphase] at hrun
    refine ⟨hretention, h.stored, h.objects, hrun.1, hrun.2, ?_, _, [], SealedOver.sealWindow .., ?_⟩
    · rw [← hrun.1.signingKey]
      exact signedWith_sealed _
    · rw [List.append_nil]
      rfl
  | noSink hphase hsink =>
    rw [hphase] at hrun
    rw [hrun.1.hasSink] at hsink
    cases hsink
  | @copied run c c' sink hphase hsink hcopy =>
    rw [hphase] at hrun
    rw [Steady, hphase] at hsteady
    -- the window in hand is the next one, so that an earlier copy of it is the same
    have hahead := ahead_of_digested h hphase hsteady
    rw [hrun.1.signingKey] at hcopy
    by_cases hname : ValidName (sinkName c.windowStart instanceId)
    · obtain ⟨sink', c'', hok', hahead', hstart, hcopied⟩ := copyToSink_ok h hahead hname
      obtain ⟨rfl, rfl⟩ := Prod.mk.inj (Except.ok.inj (hcopy.symm.trans hok'))
      cases hcopied with
      | already hread =>
        refine ⟨hretention, h.stored, h.objects, hrun.1, hahead', ?_⟩
        rw [hstart]
        exact Sink.read_eq_some.mp hread
      | new hread =>
        have hrows := Table.rows_insert_of_new (t := s.sink)
          (r := (sinkName c.windowStart instanceId, sinkPayload c instanceId)) (Sink.read_eq_none.mp hread)
        -- the copy is new, and is the one that is ahead
        refine ⟨hretention, fun c₀ hc₀ => ?_, fun object hobject => ?_, hrun.1, hahead, ?_⟩
        · dsimp only
          rw [hrows]
          exact List.mem_append_left _ (h.stored c₀ hc₀)
        · dsimp only at hobject
          rw [hrows, List.mem_append, List.mem_singleton] at hobject
          rcases hobject with hobject | rfl
          · exact h.objects object hobject
          · exact .inr ⟨c, rfl, hahead⟩
        · dsimp only
          rw [hrows]
          exact List.mem_append_right _ (List.mem_singleton_self _)
    · rw [copyToSink_of_invalid hname] at hcopy
      cases hcopy
  | copyFailed hphase hsink hcopy => exact ⟨hretention, h.stored, h.objects, trivial⟩
  | @store run c hphase hnew =>
    rw [hphase] at hrun
    obtain ⟨hs, hahead, hobject⟩ := hrun
    have hrows := Table.rows_insert_of_new hnew
    refine ⟨hretention, fun c₀ hc₀ => ?_, fun object hobject' => ?_, ⟨hs.signingKey, hs.window, hs.hasSink⟩,
      fun hnil => ?_⟩
    · dsimp only at hc₀ ⊢
      rw [hrows, List.mem_append, List.mem_singleton] at hc₀
      rcases hc₀ with hc₀ | rfl
      · exact h.stored c₀ hc₀
      · exact hobject
    · -- the copy that was ahead is of the window that is stored now
      left
      dsimp only
      rw [hrows]
      rcases h.objects object hobject' with ⟨c₀, hc₀, hname⟩ | ⟨c₀, rfl, hahead₀⟩
      · exact ⟨c₀, List.mem_append_left _ hc₀, hname⟩
      · exact ⟨c, List.mem_append_right _ (List.mem_singleton_self _), by rw [(hahead₀.sameWindow hahead).start]⟩
    · dsimp only at hnil
      rw [hrows] at hnil
      exact absurd hnil (List.append_ne_nil_of_right_ne_nil _ (List.cons_ne_nil _ _))
  | finishSeal hphase hdone => exact ⟨hretention, h.stored, h.objects, trivial⟩
  | @prune now settings entry cutoff hphase hcutoff hnew hat =>
    exact lockstep_insert (r := pruneRow entry cutoff) h hretention hnew hsteady trivial
  | pruneNothing hphase hcutoff => exact h
  | @deleteBatch run page hphase hpage =>
    obtain ⟨reached, -, w, hw, hcutoff, -⟩ := (h.retention.pruning run hphase).cutoff
    have hle : run.cutoff ≤ w.windowEnd := hcutoff ▸ (h.retention.chain.linked.fits w hw).nonempty.le
    refine lockstep_delete h hretention ?_ ⟨w, hw, hle⟩ fun c hstart => ?_
    · unfold RunOk
      by_cases hlast : page.length < pruneBatchSize ∨ run.batches + 1 = pruneMaxBatches
      · simp only [if_pos hlast]
      · simp only [if_neg hlast]
    · refine Table.select_delete_of_disjoint fun r hr hin hgone => ?_
      have hkept : r ∉ (s.log.deletePage AuditLog.id page).rows := fun hmem => (Table.mem_delete.mp hmem).2 hgone
      -- a batch takes rows below the cutoff, and the window starts behind it
      exact absurd (deleted_older h.retention.ids hpage hr hkept) (not_lt.mpr (hstart.trans hin.1))
  | @dropPartition now databaseNow settings dayNumber cutoff hphase hcutoff hday =>
    obtain ⟨reached, hreached, hle⟩ := partitionCutoff_some hcutoff
    obtain ⟨-, -, -, last, hnewest, -, hdays, -, hlast⟩ := retentionCutoff_some hreached
    have hmem : last ∈ s.checkpoints.rows := mem_sortBy.mp (List.mem_of_getLast? hnewest)
    have hend : cutoff ≤ last.windowEnd := by
      have hspan : 0 ≤ last.retentionDays * day := Int.mul_nonneg hdays.le (by decide)
      exact (hle.trans hlast).trans (Int.sub_le_self _ hspan)
    refine lockstep_delete h hretention ?_ ⟨last, hmem, hend⟩ fun c hstart => ?_
    · unfold RunOk
      dsimp only
      rw [hphase]
      trivial
    · refine Table.select_delete_of_disjoint fun r _ hin hon => ?_
      -- the day ends before the window starts
      have hlt : r.occurredAt < (dayNumber + 1) * day := by
        rw [← show r.occurredAt / day = dayNumber from hon]
        exact Int.lt_ediv_add_one_mul_self _ (by decide)
      exact absurd (hlt.trans_le (hday.trans (hstart.trans hin.1))) (lt_irrefl _)
  | stop hphase => exact ⟨hretention, h.stored, h.objects, trivial⟩

/-- The sink holds at most one object more than the database has checkpoints. -/
theorem Lockstep.length_le (h : Lockstep crypto instanceId signingKey window s) :
    s.sink.rows.length ≤ s.checkpoints.rows.length + 1 := by
  have hnames : ∃ name, ∀ object ∈ s.sink.rows,
      object.1 ∈ name :: s.checkpoints.rows.map fun c => sinkName c.windowStart instanceId := by
    by_cases hahead : ∃ c, Ahead crypto instanceId signingKey window s.log s.checkpoints.rows c
    · obtain ⟨c, hc⟩ := hahead
      refine ⟨sinkName c.windowStart instanceId, fun object hobject => ?_⟩
      rcases h.objects object hobject with ⟨c₀, hc₀, hname⟩ | ⟨c₀, rfl, hahead₀⟩
      · exact List.mem_cons_of_mem _ (List.mem_map.mpr ⟨c₀, hc₀, hname.symm⟩)
      · rw [(hahead₀.sameWindow hc).start]
        exact List.mem_cons_self
    · refine ⟨"", fun object hobject => ?_⟩
      rcases h.objects object hobject with ⟨c₀, hc₀, hname⟩ | ⟨c₀, rfl, hahead₀⟩
      · exact List.mem_cons_of_mem _ (List.mem_map.mpr ⟨c₀, hc₀, hname.symm⟩)
      · exact absurd ⟨c₀, hahead₀⟩ hahead
  obtain ⟨name, hnames⟩ := hnames
  have hsub : s.sink.rows.map Prod.fst ⊆ name :: s.checkpoints.rows.map fun c =>
      sinkName c.windowStart instanceId := by
    intro name' hname'
    obtain ⟨object, hobject, rfl⟩ := List.mem_map.mp hname'
    exact hnames object hobject
  have hlength := (s.sink.nodup.subperm hsub).length_le
  simpa using hlength

end Steps

/-- **The sink and the database in lockstep.** With a sink, one signing key and one window length from the
first run on, wherever runs stop and however the retention changes between them, while the rows of a window
that is copied stay as they are: each stored checkpoint is in the sink under its name, byte for byte; the sink
is at most one window ahead; and the copy of a window that is hashed never conflicts: where an earlier run
left one, that copy is what is stored. -/
theorem sink_lockstep (crypto : Crypto) (instanceId : String) (signingKey : Option String) (window : ℤ)
    {s : AuditState}
    (h : Reaches (auditStep crypto instanceId) (fun s a => Timely s a ∧ Steady instanceId signingKey window s a)
      (AuditState.initial Table.empty) s) :
    (∀ c ∈ s.checkpoints.rows, s.sink.read (sinkName c.windowStart instanceId) = some (sinkPayload c instanceId))
      ∧ s.sink.rows.length ≤ s.checkpoints.rows.length + 1
      ∧ ∀ run c, s.phase = .digested run c → NoneLate s c → (∀ char ∈ instanceId.toList, NameChar char) →
        ∃ s' c', auditStep crypto instanceId s .copy = some s' ∧ s'.phase = .copied run c'
          ∧ s'.sink.read (sinkName c.windowStart instanceId) = some (sinkPayload c' instanceId)
          ∧ ∀ content, s.sink.read (sinkName c.windowStart instanceId) = some content →
            content = sinkPayload c' instanceId ∧ s'.sink = s.sink := by
  have hinv : Lockstep crypto instanceId signingKey window s :=
    h.invariant _ lockstep_initial fun _ hinv hok hstep => lockstep_step hinv hok.1 hok.2 hstep
  refine ⟨fun c hc => Sink.read_eq_some.mpr (hinv.stored c hc), hinv.length_le,
    fun run c hphase hlate hchars => ?_⟩
  have hsteady : SteadyRun signingKey window run := by
    have hrun := hinv.run
    rw [RunOk, hphase] at hrun
    exact hrun.1
  obtain ⟨sink, c', hcopy, -, -, hcopied⟩ :=
    copyToSink_ok hinv (ahead_of_digested hinv hphase hlate) (validName_sinkName hchars _)
  have hstep : auditStep crypto instanceId s .copy = some { s with sink := sink, phase := .copied run c' } := by
    simp only [auditStep, hphase, hsteady.hasSink, if_true, hsteady.signingKey, hcopy]
  refine ⟨_, c', hstep, rfl, ?_⟩
  -- a run before this one left the copy, or it is new
  cases hcopied with
  | already hread =>
    refine ⟨hread, fun content hcontent => ⟨?_, rfl⟩⟩
    exact Option.some.inj (hcontent.symm.trans hread)
  | new hread =>
    refine ⟨Sink.read_insert_self hread, fun content hcontent => ?_⟩
    rw [hread] at hcontent
    cases hcontent

/-- The default settings but for a shorter retention. -/
def shorterRetention : Settings := ⟨{ retentionDays := 30 }, rfl⟩

/-- A run that stops after its copy, and one under another retention that has hashed the window again. -/
def interruptedCopy : List AuditAction :=
  [.insert (sampleRow "a" .null), .beginSeal 1200000000 .default true, .digest, .copy, .stop,
    .beginSeal 1300000000 shorterRetention true, .digest]

/-- It holds of the checkpoint that is hashed, if one is. -/
def Phase.OnDigested (p : AuditCheckpoint → Prop) : Phase → Prop
  | .digested _ c => p c
  | _ => True

instance (p : AuditCheckpoint → Prop) [DecidablePred p] : DecidablePred (Phase.OnDigested p)
  | .digested _ c => inferInstanceAs (Decidable (p c))
  | .idle | .sealing _ | .copied .. | .pruning _ => .isTrue trivial

/-- A steady action, with rows only before the first copy. -/
def Calm (s : AuditState) : AuditAction → Prop
  | .insert _ => s.sink.rows = []
  | .beginSeal _ settings hasSink =>
    settings.1.signingKey = none ∧ settings.1.window = 15 * minute ∧ hasSink = true
  | .copy => s.phase.OnDigested (NoneLate s)
  | .prune .. => False
  | _ => True

instance (s : AuditState) : DecidablePred (Calm s)
  | .insert _ => inferInstanceAs (Decidable (s.sink.rows = []))
  | .beginSeal .. => inferInstanceAs (Decidable (_ ∧ _))
  | .copy => inferInstanceAs (Decidable (s.phase.OnDigested (NoneLate s)))
  | .prune .. => .isFalse not_false
  | .digest | .store | .finishSeal | .deleteBatch _ | .dropPartition .. | .stop => .isTrue trivial

/-- The steps of the calm run are those of a steady installation. -/
theorem Calm.steady {s : AuditState} {a : AuditAction} (h : Calm s a) : Steady "i1" none (15 * minute) s a := by
  cases a with
  | insert r =>
    intro c hc
    have hnil : s.sink.rows = [] := h
    rw [hnil] at hc
    exact absurd hc List.not_mem_nil
  | prune now settings entry => exact h.elim
  | beginSeal | copy => exact h
  | digest | store | finishSeal | deleteBatch | dropPartition | stop => trivial

/-- The second run takes the copy over. -/
theorem sink_lockstep_interruptedCopy :
    let s := runTo (auditStep blankCrypto "i1") (fun s a => Timely s a ∧ Calm s a) (.initial Table.empty)
      interruptedCopy
    s.checkpoints.rows = [] ∧ s.sink.rows.length = 1 ∧ ∃ s' run c', auditStep blankCrypto "i1" s .copy = some s'
      ∧ s'.phase = .copied run c' ∧ s'.sink = s.sink := by
  intro s
  refine ⟨by decide, by decide, ?_⟩
  have hreach : Reaches (auditStep blankCrypto "i1") (fun s a => Timely s a ∧ Calm s a)
      (.initial Table.empty) s :=
    reaches_runTo (by decide)
  have hphase : (match s.phase with
      | .digested _ c => decide (NoneLate s c) && (s.sink.read (sinkName c.windowStart "i1")).isSome
      | _ => false) = true := by decide
  have hchars : ∀ char ∈ ("i1" : String).toList, NameChar char := by
    have hall : (("i1" : String).toList.all fun char => decide (NameChar char)) = true := rfl
    simpa using hall
  cases hrun : s.phase with
  | digested run c =>
    rw [hrun, Bool.and_eq_true, decide_eq_true_eq] at hphase
    obtain ⟨content, hcontent⟩ := Option.isSome_iff_exists.mp hphase.2
    obtain ⟨-, -, hcopy⟩ := sink_lockstep blankCrypto "i1" none (15 * minute)
      (hreach.mono fun _ _ hok => ⟨hok.1, hok.2.steady⟩)
    obtain ⟨s', c', hstep, hcopied, -, hsame⟩ := hcopy run c hrun hphase.1 hchars
    exact ⟨s', run, c', hstep, hcopied, (hsame content hcontent).2⟩
  | idle | sealing | copied | pruning =>
    rw [hrun] at hphase
    cases hphase

end Jasil.Audit
