import Jasil.Audit.History
import Jasil.Intervals.Adjacent

/-! # The chain of checkpoints
Whatever the settings, the clock and the points where runs stop, the stored checkpoints form one chain.

* **`Linked`**: each window starts where the one before it ends and names its hash, and lies in one day.
* **`ChainInv`**: what holds between any two steps, with where the run in progress resumes.
* **`checkpoint_chain`**: the chain, when a checkpoint is stored, and which windows a run seals. -/

namespace Jasil.Audit

/-! ## Chains -/

/-- A window of whole minutes that is not empty and does not reach beyond midnight. -/
structure WindowFits (start stop : ℤ) : Prop where
  nonempty : start < stop
  oneDay : stop ≤ (start / day + 1) * day
  start_minute : minute ∣ start
  stop_minute : minute ∣ stop
  start_representable : Representable start
  stop_representable : Representable stop

/-- The checkpoints form a chain. -/
structure Linked (cs : List AuditCheckpoint) : Prop where
  adjacent : Adjacent AuditCheckpoint.windowStart AuditCheckpoint.windowEnd cs
  /-- The first checkpoint starts the chain. -/
  head : ∀ c ∈ cs.head?, c.prevHash = none
  links : cs.IsChain fun c c' => c'.prevHash = some c.hash
  fits : ∀ c ∈ cs, WindowFits c.windowStart c.windowEnd

/-- No checkpoint is a chain. -/
theorem Linked.nil : Linked [] := by
  refine ⟨.nil, ?_, .nil, ?_⟩
  · rintro c ⟨⟩
  · rintro c ⟨⟩

/-- **One more checkpoint**, which names the last one. -/
theorem Linked.concat {cs : List AuditCheckpoint} (h : Linked cs) {c : AuditCheckpoint}
    (hnext : ∀ last ∈ cs.getLast?, last.windowEnd = c.windowStart ∧ c.prevHash = some last.hash)
    (hfirst : cs = [] → c.prevHash = none) (hfits : WindowFits c.windowStart c.windowEnd) :
    Linked (cs ++ [c]) where
  adjacent := h.adjacent.concat (fun last hlast => (hnext last hlast).1) hfits.nonempty
  head := by
    cases cs with
    | nil =>
      rintro c' ⟨⟩
      exact hfirst rfl
    | cons first cs => exact h.head
  links := by
    refine List.isChain_append.mpr ⟨h.links, .singleton c, fun last hlast c' hc' => ?_⟩
    obtain rfl : c = c' := Option.some.inj hc'
    exact (hnext last hlast).2
  fits := by
    refine List.forall_mem_append.mpr ⟨h.fits, ?_⟩
    simpa using hfits

/-- The rows of a chain are in the order of their windows. -/
theorem Linked.sorted {cs : List AuditCheckpoint} (h : Linked cs) :
    sortBy AuditCheckpoint.windowStart cs = cs :=
  sortBy_of_sorted (h.adjacent.pairwise_start.imp fun hlt => hlt.le)

/-- The newest checkpoint of a chain is its last row. -/
theorem Linked.newest {checkpoints : CheckpointTable} (h : Linked checkpoints.rows) :
    newest checkpoints = checkpoints.rows.getLast? := by
  rw [Audit.newest, h.sorted]

/-! ## The run in progress -/

/-- The run goes on where the chain ends. -/
structure Resumes (cs : List AuditCheckpoint) (run : SealRun) : Prop where
  next : ∀ last ∈ cs.getLast?, last.windowEnd = run.start ∧ run.prevHash = some last.hash
  first : cs = [] → run.prevHash = none
  minute : minute ∣ run.start
  representable : Representable run.start
  now : Representable run.now

/-- The checkpoint is that of the run's next window, which is due. -/
structure SealedFor (run : SealRun) (c : AuditCheckpoint) : Prop where
  start : c.windowStart = run.start
  stop : c.windowEnd = run.stop
  prevHash : c.prevHash = run.prevHash
  due : run.Due

/-- Where the run in progress stands, against the stored checkpoints. -/
def PhaseOk (cs : List AuditCheckpoint) : Phase → Prop
  | .idle => True
  | .sealing run => Resumes cs run
  | .digested run c => Resumes cs run ∧ SealedFor run c
  | .copied run c => Resumes cs run ∧ SealedFor run c
  | .pruning _ => True

/-- **What holds between two steps**: the checkpoints are linked, a run under way goes on where they end, and
each row's instant has a text. -/
structure ChainInv (s : AuditState) : Prop where
  linked : Linked s.checkpoints.rows
  phase : PhaseOk s.checkpoints.rows s.phase
  rows : ∀ r ∈ s.log.rows, Representable r.occurredAt

/-- Nothing is stored yet, whatever the sink holds. -/
def AuditState.initial (sink : Sink) : AuditState := ⟨Table.empty, Table.empty, sink, .idle⟩

/-- The next window of a run fits. -/
theorem windowFits_of_due {cs : List AuditCheckpoint} {run : SealRun} (h : Resumes cs run)
    (hdue : run.Due) : WindowFits run.start run.stop := by
  obtain ⟨hpos, hday⟩ := run.settings.window_dvd_day
  have hlt : run.start < run.stop := lt_windowEnd hpos
  have hnow : run.stop ≤ run.now :=
    (Int.le_add_of_nonneg_right run.settings.grace_nonneg).trans hdue.2
  refine ⟨hlt, windowEnd_le_midnight hpos hday, h.minute,
    run.settings.minute_dvd_window.trans dvd_windowEnd, h.representable, ?_, ?_⟩
  · exact h.representable.1.trans hlt.le
  · exact hnow.trans h.now.2

/-- The oldest timestamp is that of a row. -/
theorem oldest_mem {log : LogTable} {first : ℤ} (h : oldest log = some first) :
    ∃ r ∈ log.rows, r.occurredAt = first :=
  List.mem_map.mp (List.min?_mem h)

/-- A run resumes where the chain ends. -/
theorem resumes_beginSeal {s : AuditState} (h : ChainInv s) {now : ℤ} (hnow : Representable now)
    {settings : Settings} {hasSink : Bool} :
    PhaseOk s.checkpoints.rows (beginSeal s now settings hasSink) := by
  unfold beginSeal resumeAt
  rw [h.linked.newest]
  cases hlast : s.checkpoints.rows.getLast? with
  | some last =>
    have hmem := List.mem_of_getLast? hlast
    have hfits := h.linked.fits last hmem
    dsimp only
    -- the clock is behind the newest checkpoint, and the run refuses
    by_cases hahead : last.windowEnd > now
    · rw [if_pos hahead]
      trivial
    · rw [if_neg hahead]
      refine ⟨fun last' hlast' => ?_, fun hnil => ?_, hfits.stop_minute, hfits.stop_representable, hnow⟩
      · obtain rfl : last = last' := Option.some.inj (hlast.symm.trans hlast')
        exact ⟨rfl, rfl⟩
      · rw [hnil] at hmem
        exact absurd hmem List.not_mem_nil
  | none =>
    dsimp only
    cases hfirst : oldest s.log with
    | none => trivial
    | some first =>
      obtain ⟨r, hr, rfl⟩ := oldest_mem hfirst
      obtain ⟨hpos, hday⟩ := settings.window_dvd_day
      obtain ⟨hmin, hmax⟩ := h.rows r hr
      have hle := (firstStart_le hpos r.occurredAt).1
      -- no window starts before the first `datetime`
      have hmidnight : day ∣ datetimeMin := by decide
      refine ⟨fun last hlast' => absurd (hlast.symm.trans hlast') nofun, fun _ => rfl,
        settings.minute_dvd_window.trans (dvd_firstStart _), ?_, hnow⟩
      exact ⟨le_firstStart_of_dvd hpos (hday.trans hmidnight) hmin, hle.trans hmax⟩

/-- What is stored is a checkpoint of the same window with the same hash. -/
theorem copyToSink_window {crypto : Crypto} {signingKey : Option String} {instanceId : String}
    {sink sink' : Sink} {c c' : AuditCheckpoint}
    (h : copyToSink crypto signingKey instanceId sink c = .ok (sink', c')) :
    c'.windowStart = c.windowStart ∧ c'.windowEnd = c.windowEnd ∧ c'.rowCount = c.rowCount
      ∧ c'.hash = c.hash ∧ c'.prevHash = c.prevHash := by
  unfold copyToSink at h
  dsimp only at h
  split at h
  · obtain ⟨-, rfl⟩ := Prod.mk.inj (Except.ok.inj h)
    exact ⟨rfl, rfl, rfl, rfl, rfl⟩
  · exact nomatch h
  · split at h
    · exact nomatch h
    · split at h
      · exact nomatch h
      · obtain ⟨-, rfl⟩ := Prod.mk.inj (Except.ok.inj h)
        exact ⟨rfl, rfl, rfl, rfl, rfl⟩

section Steps

variable {crypto : Crypto} {instanceId : String} {s s' : AuditState} {a : AuditAction}

/-- A window that a run seals has one of the lengths that a window may have. -/
theorem SealedFor.fits {cs : List AuditCheckpoint} {run : SealRun} {c : AuditCheckpoint}
    (hrun : Resumes cs run) (h : SealedFor run c) : WindowFits c.windowStart c.windowEnd := by
  rw [h.start, h.stop]
  exact windowFits_of_due hrun h.due

/-- What a run stores is the next checkpoint of the chain. -/
theorem linked_store {cs : List AuditCheckpoint} {run : SealRun} {c : AuditCheckpoint} (h : Linked cs)
    (hrun : Resumes cs run) (hc : SealedFor run c) : Linked (cs ++ [c]) := by
  refine h.concat (fun last hlast => ?_) (fun hnil => ?_) (hc.fits hrun)
  · rw [hc.start, hc.prevHash]
    exact hrun.next last hlast
  · rw [hc.prevHash]
    exact hrun.first hnil

/-- A run that has stored its window goes on after it. -/
theorem resumes_store {cs : List AuditCheckpoint} {run : SealRun} {c : AuditCheckpoint}
    (hrun : Resumes cs run) (hc : SealedFor run c) :
    Resumes (cs ++ [c])
      { run with start := run.stop, prevHash := some c.hash, written := run.written + 1 } := by
  have hfits := windowFits_of_due hrun hc.due
  refine ⟨fun last hlast => ?_, fun hnil => ?_, hfits.stop_minute, hfits.stop_representable, hrun.now⟩
  · rw [List.getLast?_append, List.getLast?_singleton] at hlast
    obtain rfl : c = last := Option.some.inj hlast
    exact ⟨hc.stop, rfl⟩
  · exact absurd hnil (List.append_ne_nil_of_right_ne_nil _ (List.cons_ne_nil _ _))

/-- An insert keeps a property that the new row has. -/
theorem rows_of_insert {log : LogTable} {r : AuditLog} (hnew : log.get r.key = none)
    (h : ∀ r ∈ log.rows, Representable r.occurredAt) (hr : Representable r.occurredAt) :
    ∀ r' ∈ (log.insert r).rows, Representable r'.occurredAt := by
  rw [Table.rows_insert_of_new hnew, List.forall_mem_append]
  exact ⟨h, by simpa using hr⟩

/-- **Every step keeps the chain**, and where the run in progress stands against it. -/
theorem chainInv_step (h : ChainInv s) (hstep : auditStep crypto instanceId s a = some s') :
    ChainInv s' := by
  have hphase' := h.phase
  cases auditStep_cases hstep with
  | insert hnew hat => exact ⟨h.linked, h.phase, rows_of_insert hnew h.rows hat⟩
  | beginSeal hphase hnow => exact ⟨h.linked, resumes_beginSeal h hnow, h.rows⟩
  | digest hphase hdue =>
    rw [hphase] at hphase'
    exact ⟨h.linked, ⟨hphase', rfl, rfl, rfl, hdue⟩, h.rows⟩
  | noSink hphase hsink =>
    rw [hphase] at hphase'
    exact ⟨h.linked, hphase', h.rows⟩
  | copied hphase hsink hcopy =>
    rw [hphase] at hphase'
    obtain ⟨hrun, hc⟩ := hphase'
    -- a copy that is adopted is of the same window and follows the same hash
    obtain ⟨hstart, hstop, -, -, hprev⟩ := copyToSink_window hcopy
    exact ⟨h.linked, ⟨hrun, hstart.trans hc.start, hstop.trans hc.stop, hprev.trans hc.prevHash, hc.due⟩,
      h.rows⟩
  | copyFailed hphase hsink hcopy => exact ⟨h.linked, trivial, h.rows⟩
  | store hphase hnew =>
    rw [hphase] at hphase'
    obtain ⟨hrun, hc⟩ := hphase'
    refine ⟨?_, ?_, h.rows⟩
    · rw [Table.rows_insert_of_new hnew]
      exact linked_store h.linked hrun hc
    · rw [Table.rows_insert_of_new hnew]
      exact resumes_store hrun hc
  | finishSeal hphase hdone => exact ⟨h.linked, trivial, h.rows⟩
  | prune hphase hcutoff hnew hat => exact ⟨h.linked, trivial, rows_of_insert hnew h.rows hat⟩
  | pruneNothing hphase hcutoff => exact h
  | deleteBatch hphase hpage =>
    refine ⟨h.linked, ?_, fun r hr => h.rows r (Table.mem_delete.mp hr).1⟩
    dsimp only
    split <;> trivial
  | dropPartition hphase hcutoff hday =>
    exact ⟨h.linked, h.phase, fun r hr => h.rows r (Table.mem_delete.mp hr).1⟩
  | stop hphase => exact ⟨h.linked, trivial, h.rows⟩

/-- A fresh installation has an empty chain. -/
theorem chainInv_initial (sink : Sink) : ChainInv (AuditState.initial sink) :=
  ⟨.nil, trivial, fun _ hr => absurd hr List.not_mem_nil⟩

/-- Whatever the actions and their order, the checkpoints form a chain. -/
theorem chainInv_reaches {ok : AuditState → AuditAction → Prop} {sink : Sink}
    (h : Reaches (auditStep crypto instanceId) ok (AuditState.initial sink) s) : ChainInv s :=
  h.invariant _ (chainInv_initial sink) fun _ hinv _ hstep => chainInv_step hinv hstep

/-! ## What a run seals -/

/-- The windows of the checkpoints. -/
def windowsOf (cs : List AuditCheckpoint) : List (Instant × Instant) :=
  cs.map fun c => (c.windowStart, c.windowEnd)

/-- The run has sealed the windows that were due from `start` on, but for those that are still due. -/
structure Sealing (before : List AuditCheckpoint) (now : Instant) (settings : Settings) (start : Instant)
    (cs : List AuditCheckpoint) (run : SealRun) : Prop where
  sameNow : run.now = now
  sameSettings : run.settings = settings
  written : run.written ≤ maxWindowsPerRun
  due : windowsOf cs
      ++ dueWindows settings.1.window settings.1.grace now (maxWindowsPerRun - run.written) run.start
    = windowsOf before
      ++ dueWindows settings.1.window settings.1.grace now maxWindowsPerRun start

/-- While a run lasts, its steps keep `Sealing`. -/
def SealingPhase (before : List AuditCheckpoint) (now : Instant) (settings : Settings) (start : Instant)
    (s : AuditState) : Prop :=
  match s.phase with
  | .sealing run | .digested run _ | .copied run _ =>
    Sealing before now settings start s.checkpoints.rows run
  | .idle | .pruning _ => True

/-- A stored window is one more that the run sealed. -/
theorem sealing_store {before cs : List AuditCheckpoint} {now start : Instant} {settings : Settings}
    {run : SealRun} {c : AuditCheckpoint} (h : Sealing before now settings start cs run)
    (hc : SealedFor run c) :
    Sealing before now settings start (cs ++ [c])
      { run with start := run.stop, prevHash := some c.hash, written := run.written + 1 } := by
  refine ⟨h.sameNow, h.sameSettings, hc.due.1, ?_⟩
  obtain ⟨n, hn⟩ : ∃ n, maxWindowsPerRun - run.written = n + 1 :=
    ⟨maxWindowsPerRun - run.written - 1, by have := hc.due.1; omega⟩
  have hn' : maxWindowsPerRun - (run.written + 1) = n := by omega
  have hdue : ¬windowEnd run.start settings.1.window + settings.1.grace > now := by
    have hstop := hc.due.2
    rw [SealRun.stop, h.sameSettings, h.sameNow] at hstop
    exact not_lt.mpr hstop
  have hstop : run.stop = windowEnd run.start settings.1.window := by rw [SealRun.stop, h.sameSettings]
  have hall := h.due
  rw [hn, dueWindows, if_neg hdue] at hall
  rw [← hall, windowsOf, List.map_append, List.append_assoc, hn', List.map_singleton, hc.start, hc.stop,
    hstop]
  rfl

/-- **Every step of the run keeps it.** -/
theorem sealingPhase_step {before : List AuditCheckpoint} {now start : Instant} {settings : Settings}
    (hinv : ChainInv s) (h : SealingPhase before now settings start s) (hbusy : s.phase ≠ .idle)
    (hstep : auditStep crypto instanceId s a = some s') :
    SealingPhase before now settings start s' := by
  have hphase' := hinv.phase
  unfold SealingPhase at h
  cases auditStep_cases hstep with
  | insert hnew hat => exact h
  | beginSeal hphase hnow => exact absurd hphase hbusy
  | digest hphase hdue =>
    rw [hphase] at h
    exact h
  | noSink hphase hsink =>
    rw [hphase] at h
    exact h
  | copied hphase hsink hcopy =>
    rw [hphase] at h
    exact h
  | copyFailed hphase hsink hcopy => trivial
  | store hphase hnew =>
    rw [hphase] at h hphase'
    -- the list of stored windows grows by the one in hand
    have hstored := sealing_store h hphase'.2
    rw [← Table.rows_insert_of_new hnew] at hstored
    exact hstored
  | finishSeal hphase hdone => trivial
  | prune hphase hcutoff hnew hat => exact absurd hphase hbusy
  | pruneNothing hphase hcutoff => exact absurd hphase hbusy
  | @deleteBatch run page hphase hpage =>
    unfold SealingPhase
    dsimp only
    by_cases hlast : page.length < pruneBatchSize ∨ run.batches + 1 = pruneMaxBatches
    · rw [if_pos hlast]
      trivial
    · rw [if_neg hlast]
      trivial
  | dropPartition hphase hcutoff hday => exact absurd hphase hbusy
  | stop hphase => trivial

/-- Where a run starts. -/
theorem resumeAt_ok {log : LogTable} {checkpoints : CheckpointTable} {now window start : ℤ}
    {prevHash : Option String} (h : resumeAt log checkpoints now window = .ok (some (start, prevHash))) :
    (∃ last, newest checkpoints = some last ∧ start = last.windowEnd)
      ∨ newest checkpoints = none ∧ ∃ first, oldest log = some first ∧ start = firstStart first window := by
  unfold resumeAt at h
  split at h
  · rename_i last hlast
    split at h
    · exact nomatch h
    · obtain ⟨rfl, -⟩ := Prod.mk.inj (Option.some.inj (Except.ok.inj h))
      exact .inl ⟨last, hlast, rfl⟩
  · rename_i hnone
    obtain ⟨first, hfirst, heq⟩ := Option.map_eq_some_iff.mp (Except.ok.inj h)
    obtain ⟨rfl, -⟩ := Prod.mk.inj heq
    exact .inr ⟨hnone, first, hfirst, rfl⟩

/-- A run that has ended because no further window is due has sealed all that were. -/
theorem sealing_done {before cs : List AuditCheckpoint} {now start : Instant} {settings : Settings}
    {run : SealRun} (h : Sealing before now settings start cs run) (hdone : run.Done) :
    windowsOf cs
      = windowsOf before
        ++ dueWindows settings.1.window settings.1.grace now maxWindowsPerRun start := by
  have hnil : dueWindows settings.1.window settings.1.grace now (maxWindowsPerRun - run.written) run.start
      = [] := by
    rcases hdone with hmax | ⟨hlate, -⟩
    · rw [hmax, Nat.sub_self]
      rfl
    · rw [SealRun.stop, h.sameSettings, h.sameNow] at hlate
      cases maxWindowsPerRun - run.written with
      | zero => rfl
      | succ n => rw [dueWindows, if_pos hlate]
  rw [← h.due, hnil, List.append_nil]

/-- A run that starts at `start` seals the windows due from there on. -/
theorem sealingPhase_beginSeal {now start : ℤ} {settings : Settings} {hasSink : Bool}
    {prevHash : Option String}
    (h : resumeAt s.log s.checkpoints now settings.1.window = .ok (some (start, prevHash))) :
    SealingPhase s.checkpoints.rows now settings start
      { s with phase := beginSeal s now settings hasSink } := by
  unfold SealingPhase beginSeal
  rw [h]
  exact ⟨rfl, rfl, Nat.zero_le _, rfl⟩

/-- Only a run's next window is stored, and only once it is due. -/
theorem stored_due (h : ChainInv s) (hstep : auditStep crypto instanceId s a = some s')
    {c : AuditCheckpoint} (hc : c ∈ s'.checkpoints.rows) (hnew : c ∉ s.checkpoints.rows) :
    ∃ run, s.phase = .copied run c ∧ c.windowEnd + run.settings.1.grace ≤ run.now := by
  have hphase' := h.phase
  cases auditStep_cases hstep with
  | @store run c' hphase hget =>
    rw [hphase] at hphase'
    rw [Table.rows_insert_of_new hget] at hc
    rcases List.mem_append.mp hc with hc | hc
    · exact absurd hc hnew
    · obtain rfl := List.mem_singleton.mp hc
      refine ⟨run, hphase, ?_⟩
      rw [hphase'.2.stop]
      exact hphase'.2.due.2
  | _ => exact absurd hc hnew

end Steps

/-- **The chain of checkpoints.** Whatever the runs, their clock readings and settings, the rows inserted and
the points where runs stop: the windows are adjacent and linked by their hashes, none is empty or reaches
beyond midnight, each is stored once it is due, a run that ends by itself stores exactly the windows due, and
one that starts before the newest end raises and stores nothing. -/
theorem checkpoint_chain (crypto : Crypto) (instanceId : String) (sink : Sink) {s : AuditState}
    (h : Reaches (auditStep crypto instanceId) (fun _ _ => True) (AuditState.initial sink) s) :
    ((sortBy AuditCheckpoint.windowStart s.checkpoints.rows).IsChain fun c c' =>
        c.windowEnd = c'.windowStart ∧ c'.prevHash = some c.hash)
      ∧ (∀ c ∈ (sortBy AuditCheckpoint.windowStart s.checkpoints.rows).head?, c.prevHash = none)
      ∧ (∀ c ∈ s.checkpoints.rows,
        c.windowStart < c.windowEnd ∧ c.windowEnd ≤ (c.windowStart / day + 1) * day)
      ∧ (∀ a s', auditStep crypto instanceId s a = some s' → ∀ c ∈ s'.checkpoints.rows,
        c ∉ s.checkpoints.rows →
          ∃ run, s.phase = .copied run c ∧ c.windowEnd + run.settings.1.grace ≤ run.now)
      ∧ (∀ now settings hasSink last, newest s.checkpoints = some last → now < last.windowEnd →
        (∃ e, resumeAt s.log s.checkpoints now settings.1.window = .error e)
          ∧ ∀ s', auditStep crypto instanceId s (.beginSeal now settings hasSink) = some s' → s' = s)
      ∧ ∀ now settings hasSink s₁ s₂ s₃,
        auditStep crypto instanceId s (.beginSeal now settings hasSink) = some s₁ →
        Reaches (auditStep crypto instanceId) (fun s _ => s.phase ≠ .idle) s₁ s₂ →
        auditStep crypto instanceId s₂ .finishSeal = some s₃ →
          ∃ start, ((∃ last, newest s.checkpoints = some last ∧ start = last.windowEnd)
              ∨ newest s.checkpoints = none
                ∧ ∃ first, oldest s.log = some first ∧ start = firstStart first settings.1.window)
            ∧ windowsOf s₃.checkpoints.rows = windowsOf s.checkpoints.rows
              ++ dueWindows settings.1.window settings.1.grace now maxWindowsPerRun start := by
  have hinv := chainInv_reaches h
  refine ⟨?_, ?_, fun c hc => ?_, fun a s' hstep c hc hnew => stored_due hinv hstep hc hnew, ?_, ?_⟩
  · rw [hinv.linked.sorted]
    exact isChain_and hinv.linked.adjacent.next hinv.linked.links
  · rw [hinv.linked.sorted]
    exact hinv.linked.head
  · -- each window is one of the grid of its day
    have hfits := hinv.linked.fits c hc
    exact ⟨hfits.nonempty, hfits.oneDay⟩
  · -- a run that starts before the newest end raises
    intro now settings hasSink last hlast hahead
    have hraise : ∃ e, resumeAt s.log s.checkpoints now settings.1.window = .error e := by
      rw [resumeAt, hlast]
      dsimp only
      rw [if_pos hahead]
      exact ⟨_, rfl⟩
    refine ⟨hraise, fun s' hstep => ?_⟩
    obtain ⟨e, he⟩ := hraise
    cases auditStep_cases hstep with
    | beginSeal hphase hnow =>
      rw [beginSeal, he]
      dsimp only
      rw [← hphase]
  · -- a run that ends by itself has sealed what was due when it began
    intro now settings hasSink s₁ s₂ s₃ hbegin hrun hfinish
    have hinv₂ : ∀ {t}, Reaches (auditStep crypto instanceId) (fun s _ => s.phase ≠ .idle) s₁ t →
        ChainInv t := by
      intro t ht
      exact ht.invariant _ (chainInv_step hinv hbegin) fun _ hinv _ hstep => chainInv_step hinv hstep
    cases auditStep_cases hfinish with
    | @finishSeal run hphase hdone =>
      cases auditStep_cases hbegin with
      | beginSeal hidle hnow =>
        cases hresume : resumeAt s.log s.checkpoints now settings.1.window with
        | ok resumed =>
          cases resumed with
          | some resumed =>
            obtain ⟨start, prevHash⟩ := resumed
            -- the windows it has sealed are the first of those that are due
            have hsealing : SealingPhase s.checkpoints.rows now settings start s₂ :=
              hrun.invariant _ (sealingPhase_beginSeal hresume) fun ht hs hbusy hstep =>
                sealingPhase_step (hinv₂ ht) hs hbusy hstep
            rw [SealingPhase, hphase] at hsealing
            exact ⟨start, resumeAt_ok hresume, sealing_done hsealing hdone⟩
          | none =>
            -- nothing to seal: the run is over before it starts
            have hover : s₂.phase = .idle := by
              refine hrun.invariant (fun t => t.phase = .idle) ?_ fun _ hs hbusy _ => absurd hs hbusy
              dsimp only
              rw [beginSeal, hresume]
            rw [hphase] at hover
            exact nomatch hover
        | error e =>
          have hover : s₂.phase = .idle := by
            refine hrun.invariant (fun t => t.phase = .idle) ?_ fun _ hs hbusy _ => absurd hs hbusy
            dsimp only
            rw [beginSeal, hresume]
          rw [hphase] at hover
          exact nomatch hover

/-- Windows of a day, signed and each kept for another day. -/
def sampleSettings : Settings :=
  ⟨{ retentionDays := 1, retentionFloorDays := 1, checkpointWindowMinutes := 1440,
      signingKey := some sampleSigningKey }, by decide +kernel⟩

/-- A row on each of two days, and a run after each day that seals it. -/
def twoDays : List AuditAction :=
  [.insert firstRow, .beginSeal (day + 5 * minute) sampleSettings false, .digest, .copy, .store, .finishSeal,
    .insert secondRow, .beginSeal (2 * day + 5 * minute) sampleSettings false, .digest, .copy, .store,
      .finishSeal]

/-- The second run goes on where the first ended, and a run with its clock a day behind raises. -/
theorem checkpoint_chain_twoDays :
    let s := runTo (auditStep sampleCrypto "i1") (fun _ _ => True) (.initial Table.empty) twoDays
    s.checkpoints.rows = [firstWindow, secondWindow]
      ∧ ((sortBy AuditCheckpoint.windowStart s.checkpoints.rows).IsChain fun c c' =>
        c.windowEnd = c'.windowStart ∧ c'.prevHash = some c.hash)
      ∧ ∃ e, resumeAt s.log s.checkpoints day sampleSettings.1.window = .error e := by
  intro s
  obtain ⟨hreach, hrows⟩ := reaches_runTo_of_map (by decide +kernel :
    (runChecked (auditStep sampleCrypto "i1") (fun _ _ => True) (.initial Table.empty) twoDays).map
      (fun s => s.checkpoints.rows) = some [firstWindow, secondWindow])
  have hnewest : newest s.checkpoints = some secondWindow := by
    rw [newest, hrows]
    decide
  obtain ⟨hchain, -, -, -, hahead, -⟩ :=
    checkpoint_chain sampleCrypto "i1" Table.empty hreach
  exact ⟨hrows, hchain, (hahead day sampleSettings false secondWindow hnewest (by decide)).1⟩

end Jasil.Audit
