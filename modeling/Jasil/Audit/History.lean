import Jasil.Audit.Maintenance
import Jasil.Audit.Sink
import Jasil.Transition.Reachability

/-! # Histories of the audit trail
Maintenance runs step by step, with rows inserted between any two of its steps. A lock serialises the runs,
so there is one at most; each commit and each write to the sink is a step, and a run may stop before any of
them.

* **`AuditState`**: the two tables, the sink, and where the run in progress stands.
* **`auditStep`**: what an action does, and **`AuditStep`** the same as a relation, one rule an action. -/

namespace Jasil.Audit

/-- What `seal_pending_windows` keeps between two windows. -/
structure SealRun where
  now : Instant
  settings : Settings
  /-- A sink is configured. -/
  hasSink : Bool
  start : Instant
  prevHash : Option String
  written : ℕ

/-- The end of the window that is next. -/
def SealRun.stop (run : SealRun) : Instant := windowEnd run.start run.settings.1.window

/-- The next window is due. -/
def SealRun.Due (run : SealRun) : Prop :=
  run.written < maxWindowsPerRun ∧ run.stop + run.settings.1.grace ≤ run.now

/-- No further window is due, so the loop ends. -/
def SealRun.Done (run : SealRun) : Prop :=
  run.written = maxWindowsPerRun
    ∨ run.stop + run.settings.1.grace > run.now ∧ Representable (run.stop + run.settings.1.grace)

instance (run : SealRun) : Decidable run.Due := inferInstanceAs (Decidable (_ ∧ _))

instance (run : SealRun) : Decidable run.Done := inferInstanceAs (Decidable (_ ∨ _))

/-- What `_apply_retention` keeps between two batches. -/
structure PruneRun where
  now : Instant
  settings : Settings
  cutoff : Instant
  batches : ℕ

/-- Where the maintenance run stands. -/
inductive Phase
  | idle
  | sealing (run : SealRun)
  /-- The rows of the window are hashed, and the checkpoint is signed. -/
  | digested (run : SealRun) (c : AuditCheckpoint)
  /-- The checkpoint is in the sink, if there is one. -/
  | copied (run : SealRun) (c : AuditCheckpoint)
  | pruning (run : PruneRun)

/-- The log, the checkpoints and the sink of an installation, and the audit job that is under way. -/
structure AuditState where
  log : LogTable
  checkpoints : CheckpointTable
  sink : Sink
  phase : Phase

/-- What can happen next. -/
inductive AuditAction
  /-- A transaction that staged a row commits. -/
  | insert (r : AuditLog)
  | beginSeal (now : Instant) (settings : Settings) (hasSink : Bool)
  | digest
  | copy
  | store
  | finishSeal
  /-- Retention starts on a plain table, accounted for in the context of `entry`. -/
  | prune (now : Instant) (settings : Settings) (entry : AuditLog)
  | deleteBatch (page : List (String × Instant))
  /-- Retention drops the partition of a day. -/
  | dropPartition (now databaseNow : Instant) (settings : Settings) (dayNumber : ℤ)
  /-- The run stops: a crash, or an error. -/
  | stop

/-- The row belongs to a day. -/
def OnDay (dayNumber : ℤ) (r : AuditLog) : Prop := r.occurredAt / day = dayNumber

instance (dayNumber : ℤ) : DecidablePred (OnDay dayNumber) := fun _ => inferInstanceAs (Decidable (_ = _))

/-- Start sealing at `now`: with nothing to seal, or the newest checkpoint ahead of `now`, the run ends. -/
def beginSeal (s : AuditState) (now : Instant) (settings : Settings) (hasSink : Bool) : Phase :=
  match resumeAt s.log s.checkpoints now settings.1.window with
  | .ok (some (start, prevHash)) => .sealing ⟨now, settings, hasSink, start, prevHash, 0⟩
  | .ok none => .idle
  | .error _ => .idle

/-- What an action does; nothing that is not enabled happens. -/
def auditStep (crypto : Crypto) (instanceId : String) (s : AuditState) :
    AuditAction → Option AuditState
  | .insert r =>
    if s.log.get r.key = none ∧ Representable r.occurredAt then
      some { s with log := s.log.insert r }
    else none
  | .beginSeal now settings hasSink =>
    match s.phase with
    | .idle =>
      if Representable now then some { s with phase := beginSeal s now settings hasSink } else none
    | _ => none
  | .digest =>
    match s.phase with
    | .sealing run =>
      if run.Due then
        some { s with
          phase := .digested run
            (sealWindow crypto run.settings.1 s.log instanceId run.start run.stop run.prevHash) }
      else none
    | _ => none
  | .copy =>
    match s.phase with
    | .digested run c =>
      if run.hasSink then
        match copyToSink crypto run.settings.1.signingKey instanceId s.sink c with
        | .ok (sink, c) => some { s with sink := sink, phase := .copied run c }
        | .error _ => some { s with phase := .idle }
      else some { s with phase := .copied run c }
    | _ => none
  | .store =>
    match s.phase with
    | .copied run c =>
      if s.checkpoints.get c.windowStart = none then
        some { s with
          checkpoints := s.checkpoints.insert c
          phase := .sealing
            { run with start := run.stop, prevHash := some c.hash, written := run.written + 1 } }
      else none
    | _ => none
  | .finishSeal =>
    match s.phase with
    | .sealing run => if run.Done then some { s with phase := .idle } else none
    | _ => none
  | .prune now settings entry =>
    match s.phase with
    | .idle =>
      match pruneCutoff now settings.1 s.log s.checkpoints with
      | .ok (some cutoff) =>
        -- the accounting is committed before any row goes
        if s.log.get entry.key = none ∧ Representable entry.occurredAt then
          some { s with
            log := s.log.insert (pruneRow entry cutoff), phase := .pruning ⟨now, settings, cutoff, 0⟩ }
        else none
      | .ok none => some s
      | .error _ => some s
    | _ => none
  | .deleteBatch page =>
    match s.phase with
    | .pruning run =>
      if s.log.IsPage (OlderThan run.cutoff) pruneBatchSize page then
        some { s with
          log := s.log.deletePage AuditLog.id page
          phase :=
            if page.length < pruneBatchSize ∨ run.batches + 1 = pruneMaxBatches then .idle
            else .pruning { run with batches := run.batches + 1 } }
      else none
    | _ => none
  | .dropPartition now databaseNow settings dayNumber =>
    match s.phase with
    | .idle =>
      match partitionCutoff now databaseNow settings.1 s.checkpoints with
      | .ok (some cutoff) =>
        if (dayNumber + 1) * day ≤ cutoff then some { s with log := s.log.delete (OnDay dayNumber) }
        else none
      | .ok none => none
      | .error _ => none
    | _ => none
  | .stop =>
    match s.phase with
    | .idle => none
    | _ => some { s with phase := .idle }

/-- The steps, one rule for each thing that can happen. -/
inductive AuditStep (crypto : Crypto) (instanceId : String) (s : AuditState) :
    AuditAction → AuditState → Prop
  | insert {r : AuditLog} (hnew : s.log.get r.key = none) (hat : Representable r.occurredAt) :
    AuditStep crypto instanceId s (.insert r) { s with log := s.log.insert r }
  | beginSeal {now : Instant} {settings : Settings} {hasSink : Bool} (hphase : s.phase = .idle)
      (hnow : Representable now) :
    AuditStep crypto instanceId s (.beginSeal now settings hasSink)
      { s with phase := Audit.beginSeal s now settings hasSink }
  | digest {run : SealRun} (hphase : s.phase = .sealing run) (hdue : run.Due) :
    AuditStep crypto instanceId s .digest
      { s with
        phase := .digested run
          (sealWindow crypto run.settings.1 s.log instanceId run.start run.stop run.prevHash) }
  | noSink {run : SealRun} {c : AuditCheckpoint} (hphase : s.phase = .digested run c)
      (hsink : run.hasSink = false) :
    AuditStep crypto instanceId s .copy { s with phase := .copied run c }
  | copied {run : SealRun} {c c' : AuditCheckpoint} {sink : Sink}
      (hphase : s.phase = .digested run c) (hsink : run.hasSink = true)
      (hcopy : copyToSink crypto run.settings.1.signingKey instanceId s.sink c = .ok (sink, c')) :
    AuditStep crypto instanceId s .copy { s with sink := sink, phase := .copied run c' }
  | copyFailed {run : SealRun} {c : AuditCheckpoint} {e : SinkError}
      (hphase : s.phase = .digested run c) (hsink : run.hasSink = true)
      (hcopy : copyToSink crypto run.settings.1.signingKey instanceId s.sink c = .error e) :
    AuditStep crypto instanceId s .copy { s with phase := .idle }
  | store {run : SealRun} {c : AuditCheckpoint} (hphase : s.phase = .copied run c)
      (hnew : s.checkpoints.get c.windowStart = none) :
    AuditStep crypto instanceId s .store
      { s with
        checkpoints := s.checkpoints.insert c
        phase := .sealing
          { run with start := run.stop, prevHash := some c.hash, written := run.written + 1 } }
  | finishSeal {run : SealRun} (hphase : s.phase = .sealing run) (hdone : run.Done) :
    AuditStep crypto instanceId s .finishSeal { s with phase := .idle }
  | prune {now : Instant} {settings : Settings} {entry : AuditLog} {cutoff : Instant}
      (hphase : s.phase = .idle)
      (hcutoff : pruneCutoff now settings.1 s.log s.checkpoints = .ok (some cutoff))
      (hnew : s.log.get entry.key = none) (hat : Representable entry.occurredAt) :
    AuditStep crypto instanceId s (.prune now settings entry)
      { s with
        log := s.log.insert (pruneRow entry cutoff), phase := .pruning ⟨now, settings, cutoff, 0⟩ }
  | pruneNothing {now : Instant} {settings : Settings} {entry : AuditLog} (hphase : s.phase = .idle)
      (hcutoff : ∀ cutoff, pruneCutoff now settings.1 s.log s.checkpoints ≠ .ok (some cutoff)) :
    AuditStep crypto instanceId s (.prune now settings entry) s
  | deleteBatch {run : PruneRun} {page : List (String × Instant)} (hphase : s.phase = .pruning run)
      (hpage : s.log.IsPage (OlderThan run.cutoff) pruneBatchSize page) :
    AuditStep crypto instanceId s (.deleteBatch page)
      { s with
        log := s.log.deletePage AuditLog.id page
        phase :=
          if page.length < pruneBatchSize ∨ run.batches + 1 = pruneMaxBatches then .idle
          else .pruning { run with batches := run.batches + 1 } }
  | dropPartition {now databaseNow : Instant} {settings : Settings} {dayNumber : ℤ} {cutoff : Instant}
      (hphase : s.phase = .idle)
      (hcutoff : partitionCutoff now databaseNow settings.1 s.checkpoints = .ok (some cutoff))
      (hday : (dayNumber + 1) * day ≤ cutoff) :
    AuditStep crypto instanceId s (.dropPartition now databaseNow settings dayNumber)
      { s with log := s.log.delete (OnDay dayNumber) }
  | stop (hphase : s.phase ≠ .idle) :
    AuditStep crypto instanceId s .stop { s with phase := .idle }

/-- **What an action can do.** -/
theorem auditStep_cases {crypto : Crypto} {instanceId : String} {s s' : AuditState} {a : AuditAction}
    (h : auditStep crypto instanceId s a = some s') : AuditStep crypto instanceId s a s' := by
  cases a with
  | insert r =>
    simp only [auditStep, Option.ite_none_right_eq_some, Option.some.injEq] at h
    obtain ⟨⟨hnew, hat⟩, rfl⟩ := h
    exact .insert hnew hat
  | beginSeal now settings hasSink =>
    cases hphase : s.phase <;> rw [auditStep, hphase] at h
    case idle =>
      simp only [Option.ite_none_right_eq_some, Option.some.injEq] at h
      obtain ⟨hnow, rfl⟩ := h
      exact .beginSeal hphase hnow
    all_goals cases h
  | digest =>
    cases hphase : s.phase <;> rw [auditStep, hphase] at h
    case sealing run =>
      simp only [Option.ite_none_right_eq_some, Option.some.injEq] at h
      obtain ⟨hdue, rfl⟩ := h
      exact .digest hphase hdue
    all_goals cases h
  | copy =>
    cases hphase : s.phase <;> rw [auditStep, hphase] at h
    case digested run c =>
      dsimp only at h
      split at h
      · rename_i hsink
        -- a copy that fails leaves the checkpoint unstored
        cases hcopy : copyToSink crypto run.settings.1.signingKey instanceId s.sink c with
        | ok copied =>
          rw [hcopy] at h
          obtain rfl := Option.some.inj h
          exact .copied hphase hsink hcopy
        | error e =>
          rw [hcopy] at h
          obtain rfl := Option.some.inj h
          exact .copyFailed hphase hsink hcopy
      · rename_i hsink
        obtain rfl := Option.some.inj h
        exact .noSink hphase (by simpa using hsink)
    all_goals cases h
  | store =>
    cases hphase : s.phase <;> rw [auditStep, hphase] at h
    case copied run c =>
      simp only [Option.ite_none_right_eq_some, Option.some.injEq] at h
      obtain ⟨hnew, rfl⟩ := h
      exact .store hphase hnew
    all_goals cases h
  | finishSeal =>
    cases hphase : s.phase <;> rw [auditStep, hphase] at h
    case sealing run =>
      simp only [Option.ite_none_right_eq_some, Option.some.injEq] at h
      obtain ⟨hdone, rfl⟩ := h
      exact .finishSeal hphase hdone
    all_goals cases h
  | prune now settings entry =>
    cases hphase : s.phase <;> rw [auditStep, hphase] at h
    case idle =>
      dsimp only at h
      -- no cutoff, or none that can be counted: nothing is deleted
      split at h
      · rename_i cutoff hcutoff
        simp only [Option.ite_none_right_eq_some, Option.some.injEq] at h
        obtain ⟨⟨hnew, hat⟩, rfl⟩ := h
        exact .prune hphase hcutoff hnew hat
      · rename_i hcutoff
        obtain rfl := Option.some.inj h
        exact .pruneNothing hphase (by simp [hcutoff])
      · rename_i hcutoff
        obtain rfl := Option.some.inj h
        exact .pruneNothing hphase (by simp [hcutoff])
    all_goals cases h
  | deleteBatch page =>
    cases hphase : s.phase <;> rw [auditStep, hphase] at h
    case pruning run =>
      simp only [Option.ite_none_right_eq_some, Option.some.injEq] at h
      obtain ⟨hpage, rfl⟩ := h
      exact .deleteBatch hphase hpage
    all_goals cases h
  | dropPartition now databaseNow settings dayNumber =>
    cases hphase : s.phase <;> rw [auditStep, hphase] at h
    case idle =>
      dsimp only at h
      split at h
      · rename_i cutoff hcutoff
        simp only [Option.ite_none_right_eq_some, Option.some.injEq] at h
        obtain ⟨hday, rfl⟩ := h
        rw [← hphase]
        exact .dropPartition hphase hcutoff hday
      · cases h
      · cases h
    all_goals cases h
  | stop =>
    cases hphase : s.phase <;> rw [auditStep, hphase] at h
    case idle => cases h
    all_goals
      obtain rfl := Option.some.inj h
      exact .stop (by rw [hphase]; rintro ⟨⟩)

end Jasil.Audit
