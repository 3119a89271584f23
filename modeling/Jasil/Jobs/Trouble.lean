import Jasil.Jobs.Batches

/-! # A worker in trouble
A job's lease can be lost while the job runs: the heartbeat finds it gone, fences it or abandons it, or the
outcome write finds the claim no longer owned. The worker then gives the rest of its batch back.

* **`Worker.HandedBack`**: what giving back comes to, seen from the moment the job has ended.
* **`Worker.Quiet`**, **`Worker.Kept`**: where the runner stands while it gives the batch back, and where a
  lease is meanwhile.
* **`handed_back_iff`**: the batch is given back except when the outcome write raises. That error is taken
  to be the one job's alone, and the loop goes on. -/

namespace Jasil.Jobs

open BatchEvent

namespace Worker

/-- The job's lease was lost by the time it ended: its event is set, or the outcome write found the claim
no longer owned. What the write for a handler that stopped the worker found is not kept, and all of those
count. -/
def InTrouble (w : Worker) (lost : EventRef) (execution : Execution) : Prop :=
  w.keeper.isSet lost = true ∨ execution = .returned true ∨ execution = .stopped

/-- A renewal since the state `w` found the lease gone. -/
def FoundGone (w w' : Worker) (id : JobId) : Prop :=
  ∃ ids, renewed w.batch ids ∈ w'.log.drop w.log.length ∧ id ∉ ids

/-- **The rest of the batch is given back**: seen from the state `w` in which a job has just ended, no other
job of the batch is started; and once the call is over, each lease that was held then was passed to
`release_leases` exactly once, unless a renewal in between found that it was no longer held. -/
structure HandedBack (w w' : Worker) : Prop where
  unstarted : ∀ id, started w.batch id ∈ w'.log → started w.batch id ∈ w.log
  released : w'.batch ≠ w.batch ∨ w'.runner = .idle → ∀ p ∈ w.keeper.held,
    ((releasedIn w'.log).map Lease.key).count (w.batch, p.1) = 1 ∨ w.FoundGone w' p.1

/-! ## While a batch is given back -/

/-- **No job is about to start**: the runner gives back what waits, or it holds nothing that it could find
to be still held. -/
def Quiet (w : Worker) : RunnerPc → Prop
  | .ran _ lost lostClaim => lostClaim = true ∨ w.keeper.isSet lost = true
  | .turn index => index ≠ 0 ∧ w.keeper.held = []
  | .stillHeld _ _ _ | .drop _ _ => w.keeper.held = []
  | .takeWaiting | .release _ _ | .clear | .idle | .backfill _ | .claim _ | .hold _ => True
  | _ => False

/-- The lease is held, or among those about to be released. -/
def Kept (w : Worker) (p : JobId × ℤ) : RunnerPc → Prop
  | .ran _ _ _ | .takeWaiting => p ∈ w.keeper.held
  | .release batch waiting => batch = w.batch ∧ p ∈ waiting
  | _ => False

/-- The lease was passed to `release_leases`. -/
def Released (w : Worker) (batch : ℕ) (id : JobId) : Prop :=
  (batch, id) ∈ (releasedIn w.log).map Lease.key

variable {cfg : RunnerConfig} {thread : Thread} {w w' w'' : Worker} {pc : RenewPc} {renewal : Renewal}
  {r : Readings}

/-! ### What a renewal does when no job runs -/

/-- No event is set then. -/
theorem RenewMove.isSet (h : RenewMove thread w pc renewal w') (hrun : w.keeper.runningId = none)
    (event : EventRef) : w'.keeper.isSet event = w.keeper.isSet event := by
  have hnone : w.keeper.running = none := Option.map_eq_none_iff.mp hrun
  cases h with
  | abandoned _ ha _ _ _ =>
    obtain ⟨hid, -⟩ := LeaseKeeper.abandonIfOverdue_some ha
    cases hrun.symm.trans hid
  | answered monotonic =>
    show (w.keeper.renewed _ monotonic).isSet event = _
    rw [LeaseKeeper.renewed]
    dsimp only
    rw [hnone]
    rfl
  | fenced leaseSeconds intervalSeconds monotonic =>
    show (w.keeper.fenceIfSilent leaseSeconds intervalSeconds monotonic).isSet event = _
    rw [LeaseKeeper.fenceIfSilent, hnone]
  | rest _ _ _ _ | released _ | acquired _ | lost | renewed _ => rfl

/-- Nothing is taken then, and only what the database did not renew is lost. -/
theorem RenewMove.held_or_gone (h : RenewMove thread w pc renewal w')
    (hrun : w.keeper.runningId = none) {p : JobId × ℤ} (hp : p ∈ w.keeper.held) :
    p ∈ w'.keeper.held ∨ ∃ ids, pc = .answered ids ∧ p.1 ∉ ids := by
  cases h with
  | abandoned _ ha _ _ _ =>
    obtain ⟨hid, -⟩ := LeaseKeeper.abandonIfOverdue_some ha
    cases hrun.symm.trans hid
  | @answered ids monotonic =>
    by_cases hid : p.1 ∈ ids
    · left
      rw [show p ∈ _ ↔ _ from (w.keeper.held_renewed ids monotonic).1 ▸ List.mem_filter]
      exact ⟨hp, decide_eq_true hid⟩
    · exact Or.inr ⟨ids, rfl, hid⟩
  | fenced leaseSeconds intervalSeconds monotonic =>
    left
    rw [(w.keeper.held_fenceIfSilent leaseSeconds intervalSeconds monotonic).1]
    exact hp
  | rest _ _ _ _ | released _ | acquired _ | lost | renewed _ => exact Or.inl hp

/-- An answer was recorded when it came. -/
theorem RenewMove.log_answered (h : RenewMove thread w pc renewal w') {ids : List JobId}
    (he : renewal = .going (.answered ids)) : w'.log = w.log ++ [.renewed w.batch ids] := by
  cases h with
  | rest _ _ hl _ | abandoned _ _ _ hl _ =>
    rw [he] at hl
    cases hl
  | renewed _ =>
    cases he
    rfl
  | released _ | acquired _ | lost | answered _ | fenced _ _ _ => cases he

/-! ### What the runner leaves alone -/

/-- What every step of the runner leaves alone. -/
structure RunnerFrame (w w' : Worker) : Prop where
  heartbeat : w'.heartbeat = w.heartbeat
  batch : w.batch ≤ w'.batch
  /-- A job is started from where its handler is called. -/
  started : ∀ {batch id}, started batch id ∈ w'.log → started batch id ∈ w.log ∨
    batch = w.batch ∧ ∃ index job lost, w.runner = .execute index job lost

/-- A step that records at most that something else happened than a start. -/
theorem RunnerFrame.of_log (hb : w'.heartbeat = w.heartbeat) (hbatch : w.batch ≤ w'.batch)
    (hlog : w'.log = w.log ∨ ∃ e, (∀ b i, e ≠ BatchEvent.started b i) ∧ w'.log = w.log ++ [e]) :
    RunnerFrame w w' := by
  refine ⟨hb, hbatch, fun {batch id} hs => Or.inl ?_⟩
  rcases hlog with hl | ⟨e, he, hl⟩
  · exact hl ▸ hs
  · exact Custody.started_of_concat (hl ▸ hs) he

/-- A step of the renewal before a job's turn starts no job. -/
theorem RunnerFrame.of_renew {index : ℕ} {job : ClaimedJob}
    (h : w.At (.stillHeld index job pc)) (hstep : w.renewStep cfg .runner r pc = some (renewal, w')) :
    RunnerFrame w w' := by
  have hframe := (renewStep_move hstep).frame h.2.1
  refine .of_log hframe.heartbeat hframe.batch.ge ?_
  rcases hframe.log with hl | ⟨e, he, hl⟩
  · exact Or.inl hl
  · refine Or.inr ⟨e, ?_, hl⟩
    rintro b i rfl
    cases he

/-- The runner's part changes only where it stands. -/
theorem RunnerFrame.at_pc (h : RunnerFrame w w') (pc : RunnerPc) :
    RunnerFrame w { w' with runner := pc } := ⟨h.heartbeat, h.batch, h.started⟩

/-- **A step of the runner** starts at most the job whose turn it is. -/
theorem runnerStep_frame (h : w.Inv) (hs : w.runnerStep cfg r = some w') : RunnerFrame w w' := by
  have same : ∀ {v : Worker}, v.heartbeat = w.heartbeat → v.batch = w.batch → v.log = w.log →
      RunnerFrame w v := fun hb hbatch hl => .of_log hb hbatch.ge (Or.inl hl)
  cases hpc : w.runner with
  | idle =>
    rw [runnerStep, hpc] at hs
    exact Option.some.inj hs ▸ same rfl rfl rfl
  | backfill now =>
    rw [runnerStep, hpc] at hs
    obtain ⟨db, backfilled, he⟩ := w.backfill_cases r
    rw [he] at hs
    exact Option.some.inj hs ▸ same rfl rfl rfl
  | claim now =>
    rw [runnerStep, hpc] at hs
    dsimp only at hs
    split at hs
    · exact Option.some.inj hs ▸ same rfl rfl rfl
    · split at hs
      · exact Option.some.inj hs ▸ same rfl rfl rfl
      · split at hs <;> exact Option.some.inj hs ▸ same rfl rfl rfl
  | turn index =>
    rw [runnerStep, hpc] at hs
    dsimp only at hs
    split at hs
    · exact Option.some.inj hs ▸ same rfl rfl rfl
    · split_ifs at hs <;> exact Option.some.inj hs ▸ same rfl rfl rfl
  | stillHeld index job pc =>
    -- the renewal before a job, which has a frame of its own
    have hat := h.at hpc
    rw [runnerStep, hpc] at hs
    obtain ⟨⟨renewal, w₁⟩, hstep, rfl⟩ := Option.map_eq_some_iff.mp hs
    have hframe := RunnerFrame.of_renew hat hstep
    cases renewal with
    | going pc₁ => exact hframe.at_pc _
    | returned ids =>
      dsimp only
      split <;> exact hframe.at_pc _
    | raised => exact hframe.at_pc _
  | execute index job lost =>
    rw [runnerStep, hpc] at hs
    dsimp only at hs
    split at hs
    · obtain rfl := Option.some.inj hs
      refine ⟨rfl, Nat.le_refl _, fun {batch id} hs' => ?_⟩
      rcases List.mem_append.mp hs' with hs' | hs'
      · exact Or.inl hs'
      · cases List.mem_singleton.mp hs'
        exact Or.inr ⟨rfl, index, job, lost, hpc⟩
    · exact Option.some.inj hs ▸ same rfl rfl rfl
  | ran index lost lostClaim =>
    rw [runnerStep, hpc] at hs
    dsimp only at hs
    split at hs <;> exact Option.some.inj hs ▸ same rfl rfl rfl
  | markStarted index job lost | handle index job lost =>
    rw [runnerStep, hpc] at hs
    exact Option.some.inj hs ▸ same rfl rfl rfl
  | write index job lost ending =>
    rw [runnerStep, hpc] at hs
    obtain ⟨db, pc, he, -⟩ := @writeOutcome_cases w cfg r index job lost ending
    have hw := Option.some.inj hs
    rw [he] at hw
    exact hw ▸ same rfl rfl rfl
  | hold snapshots =>
    rw [runnerStep, hpc] at hs
    obtain ⟨-, rfl⟩ := locked_some hs
    exact .of_log rfl (Nat.le_succ _) (Or.inr ⟨_, by rintro b i ⟨⟩, rfl⟩)
  | finish index job lost execution =>
    rw [runnerStep, hpc] at hs
    obtain ⟨-, rfl⟩ := locked_some hs
    cases execution <;>
      exact .of_log rfl (Nat.le_refl _) (Or.inr ⟨_, by rintro b i ⟨⟩, rfl⟩)
  | release batch waiting =>
    rw [runnerStep, hpc] at hs
    obtain rfl := Option.some.inj hs
    rcases @releaseJobs_cases cfg w r batch waiting with ⟨-, he⟩ | ⟨db, -, he⟩
    · rw [he]
      exact same rfl rfl rfl
    · rw [he]
      exact .of_log rfl (Nat.le_refl _) (Or.inr ⟨_, by rintro b i ⟨⟩, rfl⟩)
  | drop _ _ | begin _ _ | finalize _ _ _ _ | takeWaiting | clear =>
    rw [runnerStep, hpc] at hs
    exact (locked_some hs).2 ▸ same rfl rfl rfl

/-! ### What the runner does -/

/-- **A quiet runner stays quiet within the batch**, and releases what it took. -/
theorem quiet_runnerStep (h : w.Inv) (hq : w.Quiet w.runner) (hs : w.runnerStep cfg r = some w') :
    (w'.batch = w.batch → w'.Quiet w'.runner) ∧
      ∀ p, w.Kept p w.runner →
        w'.batch = w.batch ∧ (w'.Kept p w'.runner ∨ w'.Released w.batch p.1) := by
  cases hpc : w.runner with
  | turn index =>
    rw [hpc] at hq
    obtain ⟨hne, hheld⟩ := hq
    refine ⟨fun _ => ?_, fun p hp => hp.elim⟩
    rw [runnerStep, hpc] at hs
    dsimp only at hs
    split at hs
    · obtain rfl := Option.some.inj hs
      trivial
    · rw [if_neg hne] at hs
      split at hs
      · obtain rfl := Option.some.inj hs
        trivial
      · obtain rfl := Option.some.inj hs
        exact hheld
  | stillHeld index job pc =>
    rw [hpc] at hq
    obtain ⟨-, hlock, hnamed⟩ := h.at hpc
    have hv := h.view hpc
    refine ⟨fun _ => ?_, fun p hp => hp.elim⟩
    rw [runnerStep, hpc] at hs
    obtain ⟨⟨renewal, w₁⟩, hstep, rfl⟩ := Option.map_eq_some_iff.mp hs
    have hmove := renewStep_move hstep
    -- a renewal adds nothing to what is held
    have hheld : w₁.keeper.held = [] := by
      refine List.eq_nil_iff_forall_not_mem.mpr fun p hp => ?_
      have hp' := (hmove.frame hlock).held p hp
      rw [show w.keeper.held = [] from hq] at hp'
      exact List.not_mem_nil hp'
    cases renewal with
    | going pc₁ => exact hheld
    | raised => exact hheld
    | returned ids =>
      dsimp only
      split
      · -- what a renewal names is held
        rename_i hid
        have hended : ∀ id, BatchEvent.started w.batch id ∈ w.log → .ended w.batch id ∈ w.log :=
          fun id hid => (hv.ended id hid).resolve_right (by rintro ⟨⟩)
        have hm := (hmove.named hnamed hended job.id hid).1
        rw [hheld] at hm
        exact absurd hm List.not_mem_nil
      · exact ⟨Nat.succ_ne_zero _, hheld⟩
  | drop index job =>
    rw [hpc] at hq
    refine ⟨fun _ => ?_, fun p hp => hp.elim⟩
    rw [runnerStep, hpc] at hs
    obtain ⟨-, rfl⟩ := locked_some hs
    refine ⟨Nat.succ_ne_zero _, ?_⟩
    show w.keeper.held.without [job.id] = []
    rw [show w.keeper.held = [] from hq]
    rfl
  | ran index lost lostClaim =>
    rw [hpc] at hq
    have hlost : lostClaim = true ∨ w.keeper.isSet lost = true := hq
    rw [runnerStep, hpc] at hs
    dsimp only at hs
    rw [if_pos hlost] at hs
    obtain rfl := Option.some.inj hs
    exact ⟨fun _ => trivial, fun p hp => ⟨rfl, Or.inl hp⟩⟩
  | takeWaiting =>
    have hrun : w.keeper.runningId = none := h.at hpc
    rw [runnerStep, hpc] at hs
    obtain ⟨-, rfl⟩ := locked_some hs
    refine ⟨fun _ => trivial, fun p hp => ⟨rfl, Or.inl ⟨rfl, ?_⟩⟩⟩
    -- no job is running, so all that is held waits
    refine List.mem_filter.mpr ⟨hp, decide_eq_true ?_⟩
    show some p.1 ≠ w.keeper.runningId
    rw [hrun]
    rintro ⟨⟩
  | release batch waiting =>
    rw [runnerStep, hpc] at hs
    obtain rfl := Option.some.inj hs
    refine ⟨fun _ => trivial, fun p hp => ?_⟩
    obtain ⟨rfl, hp⟩ := hp
    rcases @releaseJobs_cases cfg w r w.batch waiting with ⟨rfl, -⟩ | ⟨db, -, he⟩
    · exact absurd hp List.not_mem_nil
    · rw [he]
      refine ⟨rfl, Or.inr (mem_keys_releasedIn.mpr ⟨waiting, ?_, List.mem_map_of_mem hp⟩)⟩
      exact List.mem_append_right _ (List.mem_singleton.mpr rfl)
  | clear =>
    rw [runnerStep, hpc] at hs
    obtain ⟨-, rfl⟩ := locked_some hs
    exact ⟨fun _ => trivial, fun p hp => hp.elim⟩
  | idle | backfill _ =>
    refine ⟨fun _ => ?_, fun p hp => hp.elim⟩
    rw [runnerStep, hpc] at hs
    obtain rfl := Option.some.inj hs
    trivial
  | claim now =>
    refine ⟨fun _ => ?_, fun p hp => hp.elim⟩
    rw [runnerStep, hpc] at hs
    dsimp only at hs
    split at hs
    · obtain rfl := Option.some.inj hs
      trivial
    · split at hs
      · obtain rfl := Option.some.inj hs
        trivial
      · split at hs
        · obtain rfl := Option.some.inj hs
          trivial
        · obtain rfl := Option.some.inj hs
          trivial
  | hold snapshots =>
    rw [runnerStep, hpc] at hs
    obtain ⟨-, rfl⟩ := locked_some hs
    exact ⟨fun hb => absurd hb (Nat.succ_ne_self _), fun p hp => hp.elim⟩
  | begin _ _ | markStarted _ _ _ | execute _ _ _ | handle _ _ _ | finalize _ _ _ _
  | write _ _ _ _ | finish _ _ _ _ =>
    rw [hpc] at hq
    exact hq.elim

/-! ### What the heartbeat does -/

/-- No job runs while the runner is quiet. -/
theorem Quiet.runningId (hq : w.Quiet w.runner) (h : w.Inv) : w.keeper.runningId = none := by
  have hat := h.runner
  cases hpc : w.runner with
  | idle | backfill _ | claim _ | hold _ | stillHeld _ _ _ =>
    rw [hpc] at hat
    exact hat.1
  | turn _ | drop _ _ | ran _ _ _ | takeWaiting | release _ _ | clear =>
    rw [hpc] at hat
    exact hat
  | begin _ _ | markStarted _ _ _ | execute _ _ _ | handle _ _ _ | finalize _ _ _ _
  | write _ _ _ _ | finish _ _ _ _ =>
    rw [hpc] at hq
    exact hq.elim

/-- **The heartbeat leaves a quiet runner quiet.** -/
theorem RenewMove.quiet (h : RenewMove .heartbeat w pc renewal w')
    (hframe : RenewFrame .heartbeat w renewal w') (hrun : w.keeper.runningId = none)
    (hq : w.Quiet w.runner) : w'.Quiet w'.runner := by
  have hheld : w.keeper.held = [] → w'.keeper.held = [] := by
    intro hnil
    refine List.eq_nil_iff_forall_not_mem.mpr fun p hp => ?_
    exact absurd (hnil ▸ hframe.held p hp) List.not_mem_nil
  rw [hframe.runner]
  cases hpc : w.runner with
  | ran index lost lostClaim =>
    rw [hpc] at hq
    exact hq.imp_right (h.isSet hrun lost).trans
  | turn index =>
    rw [hpc] at hq
    exact ⟨hq.1, hheld hq.2⟩
  | stillHeld _ _ _ | drop _ _ =>
    rw [hpc] at hq
    exact hheld hq
  | takeWaiting | release _ _ | clear | idle | backfill _ | claim _ | hold _ => trivial
  | begin _ _ | markStarted _ _ _ | execute _ _ _ | handle _ _ _ | finalize _ _ _ _
  | write _ _ _ _ | finish _ _ _ _ =>
    rw [hpc] at hq
    exact hq.elim

/-- A lease that is kept stays so, unless the database did not renew it. -/
theorem RenewMove.kept (h : RenewMove .heartbeat w pc renewal w')
    (hframe : RenewFrame .heartbeat w renewal w') (hrun : w.keeper.runningId = none)
    {p : JobId × ℤ} (hk : w.Kept p w.runner) :
    w'.Kept p w'.runner ∨ ∃ ids, pc = .answered ids ∧ p.1 ∉ ids := by
  rw [hframe.runner]
  cases hpc : w.runner with
  | ran _ _ _ | takeWaiting =>
    rw [hpc] at hk
    exact h.held_or_gone hrun hk
  | release batch waiting =>
    rw [hpc] at hk
    exact Or.inl ⟨hk.1.trans hframe.batch.symm, hk.2⟩
  | idle | backfill _ | claim _ | hold _ | turn _ | stillHeld _ _ _ | drop _ _ | begin _ _
  | markStarted _ _ _ | execute _ _ _ | handle _ _ _ | finalize _ _ _ _ | write _ _ _ _ | finish _ _ _ _
    | clear =>
    rw [hpc] at hk
    exact hk.elim

/-! ### Every run from there -/

/-- **What holds from the state `w` on**, in which a job of a worker in trouble has ended. -/
structure Aftermath (w w' : Worker) : Prop where
  later : w.batch ≤ w'.batch
  log : w.log <+: w'.log
  unstarted : ∀ id, .started w.batch id ∈ w'.log → .started w.batch id ∈ w.log
  quiet : w'.batch = w.batch → w'.Quiet w'.runner
  /-- The renewal that the heartbeat has an answer for came since. -/
  answered : w'.batch = w.batch → ∀ ids, w'.heartbeat = some (.answered ids) →
    .renewed w.batch ids ∈ w'.log.drop w.log.length
  leases : ∀ p ∈ w.keeper.held, (w'.batch = w.batch ∧ w'.Kept p w'.runner) ∨
    w'.Released w.batch p.1 ∨ w.FoundGone w' p.1

/-- What comes after the first entries is still there when the list grows. -/
theorem mem_drop_of_isPrefix {α : Type*} {l l' : List α} (h : l <+: l') {n : ℕ} {a : α}
    (ha : a ∈ l.drop n) : a ∈ l'.drop n := by
  obtain ⟨t, rfl⟩ := h
  rw [List.drop_append]
  exact List.mem_append_left _ ha

/-- A lease that was found gone stays so. -/
theorem FoundGone.mono {id : JobId} (h : w.FoundGone w' id) (hlog : w'.log <+: w''.log) :
    w.FoundGone w'' id := by
  obtain ⟨ids, hr, hid⟩ := h
  exact ⟨ids, mem_drop_of_isPrefix hlog hr, hid⟩

/-- A lease that was released stays so. -/
theorem Released.mono {batch : ℕ} {id : JobId} (h : w.Released batch id)
    (hlog : w.log <+: w'.log) : w'.Released batch id := by
  obtain ⟨items, hm, hid⟩ := mem_keys_releasedIn.mp h
  exact mem_keys_releasedIn.mpr ⟨items, hlog.subset hm, hid⟩

/-- A lease that was given back or found gone stays so. -/
theorem Aftermath.leases_mono (h : Aftermath w w') (hlog : w'.log <+: w''.log) {p : JobId × ℤ}
    (hp : p ∈ w.keeper.held) : (w'.batch = w.batch ∧ w'.Kept p w'.runner) ∨
      w''.Released w.batch p.1 ∨ w.FoundGone w'' p.1 :=
  (h.leases p hp).imp_right (Or.imp (·.mono hlog) (·.mono hlog))

/-- It is kept by every step of the runner. -/
theorem Aftermath.runnerStep (h : Aftermath w w') (hinv : w'.Inv)
    (hs : w'.runnerStep cfg r = some w'') : Aftermath w w'' := by
  have hframe := runnerStep_frame hinv hs
  have hlog := runnerStep_log hinv hs
  have hsame : w''.batch = w.batch → w'.batch = w.batch :=
    fun hb => Nat.le_antisymm (hb ▸ hframe.batch) h.later
  refine ⟨h.later.trans hframe.batch, h.log.trans hlog, fun id hs' => ?_, fun hb => ?_,
    fun hb ids hids => ?_, fun p hp => ?_⟩
  · rcases hframe.started hs' with hs' | ⟨hb, index, job, lost, hpc⟩
    · exact h.unstarted id hs'
    · -- a quiet runner calls no handler
      have hq := h.quiet hb.symm
      rw [hpc] at hq
      exact hq.elim
  · have hb' := hsame hb
    exact (quiet_runnerStep hinv (h.quiet hb') hs).1 (hb.trans hb'.symm)
  · rw [hframe.heartbeat] at hids
    exact mem_drop_of_isPrefix hlog (h.answered (hsame hb) ids hids)
  · rcases h.leases_mono hlog hp with ⟨hb, hk⟩ | hgiven
    · obtain ⟨hb', hk'⟩ := (quiet_runnerStep hinv (h.quiet hb) hs).2 p hk
      exact hk'.imp (fun hk' => ⟨hb'.trans hb, hk'⟩) fun hr => Or.inl (hb ▸ hr)
    · exact Or.inr hgiven

/-- It is kept by every step of the heartbeat. -/
theorem Aftermath.heartbeatStep (h : Aftermath w w') (hinv : w'.Inv)
    (hs : w'.heartbeatStep cfg r = some w'') : Aftermath w w'' := by
  rw [Worker.heartbeatStep] at hs
  cases hb : w'.heartbeat with
  | none =>
    rw [hb] at hs
    obtain rfl := Option.some.inj hs
    exact ⟨h.later, h.log, h.unstarted, h.quiet, by rintro _ _ ⟨⟩, h.leases⟩
  | some pc =>
    rw [hb] at hs
    obtain ⟨⟨renewal, w₁⟩, hstep, rfl⟩ := Option.map_eq_some_iff.mp hs
    have hmove := renewStep_move hstep
    have hframe := hmove.frame (hinv.heartbeat pc hb)
    have hlog := hframe.isPrefix
    -- what the step comes to for the heartbeat itself is settled at the end
    have hw₁ : ∀ next, (∀ ids, next = some (.answered ids) → renewal = .going (.answered ids)) →
        Aftermath w { w₁ with heartbeat := next } := by
      intro next hnext
      refine ⟨hframe.batch ▸ h.later, h.log.trans hlog, fun id hs' => ?_, fun hb' => ?_,
        fun hb' ids hids => ?_, fun p hp => ?_⟩
      · exact h.unstarted id (hframe.started hs')
      · have hq := h.quiet (hframe.batch.symm.trans hb')
        exact hmove.quiet hframe (hq.runningId hinv) hq
      · have hl := hmove.log_answered (hnext ids hids)
        show .renewed w.batch ids ∈ w₁.log.drop w.log.length
        rw [hl, List.drop_append_of_le_length h.log.length_le,
          hframe.batch.symm.trans hb']
        exact List.mem_append_right _ (List.mem_singleton.mpr rfl)
      · rcases h.leases_mono hlog hp with ⟨hb', hk⟩ | hgiven
        · have hrun := (h.quiet hb').runningId hinv
          rcases hmove.kept hframe hrun hk with hk' | ⟨ids, rfl, hid⟩
          · exact Or.inl ⟨hframe.batch.trans hb', hk'⟩
          · exact Or.inr (Or.inr ⟨ids, mem_drop_of_isPrefix hlog (h.answered hb' ids hb), hid⟩)
        · exact Or.inr hgiven
    cases renewal with
    | going pc₁ => exact hw₁ (some pc₁) fun ids he => congrArg Renewal.going (Option.some.inj he)
    | returned ids => exact hw₁ none (by rintro _ ⟨⟩)
    | raised => exact hw₁ none (by rintro _ ⟨⟩)

/-- It holds from then on. -/
theorem Aftermath.runs (h : Aftermath w w) (hinv : w.Inv) (hr : Runs cfg w w') : Aftermath w w' := by
  induction hr with
  | refl => exact h
  | @tail w₁ a w₂ hreach _ hs ih =>
    have hinv₁ := (hinv.runs hreach).1
    cases a with
    | runner r => exact ih.runnerStep hinv₁ hs
    | heartbeat r => exact ih.heartbeatStep hinv₁ hs
    | other c =>
      obtain rfl := Option.some.inj hs
      exact ⟨ih.later, ih.log, ih.unstarted, ih.quiet, ih.answered, ih.leases⟩

/-- **What it comes to**: the batch is given back. -/
theorem Aftermath.handedBack (h : Aftermath w w') (hinv : w'.Inv) : HandedBack w w' := by
  refine ⟨h.unstarted, fun hover p hp => ?_⟩
  rcases h.leases p hp with ⟨hb, hk⟩ | hr | hg
  · rw [hover.resolve_left (fun hne => hne hb)] at hk
    exact hk.elim
  · exact Or.inl (List.count_eq_one_of_mem hinv.custody.nodup_released hr)
  · exact Or.inr hg

/-! ## Exactly when -/

/-- The job has just ended in trouble, and the error of its outcome write is not in the way. -/
theorem aftermath_finish {index : ℕ} {job : ClaimedJob} {lost : EventRef} {execution : Execution}
    (h : w.Inv) (hpc : w.runner = .finish index job lost execution)
    (htrouble : w.InTrouble lost execution) (hs : w.runnerStep cfg r = some w')
    (hok : execution ≠ .raised ∨ ∀ p ∈ w.keeper.held, p.1 = job.id) : Aftermath w' w' := by
  rw [runnerStep, hpc] at hs
  obtain ⟨hlock, rfl⟩ := locked_some hs
  -- the lock is free, so the heartbeat has no answer of an earlier renewal
  have hanswered : ∀ ids, w.heartbeat ≠ some (.answered ids) := by
    intro ids hids
    cases hlock.symm.trans (h.heartbeat _ hids rfl)
  cases execution with
  | returned lostClaim =>
    refine ⟨Nat.le_refl _, List.prefix_refl _, fun _ => id, fun _ => ?_,
      fun _ ids hids => absurd hids (hanswered ids), fun p hp => Or.inl ⟨rfl, hp⟩⟩
    rcases htrouble with hset | he | he
    · exact Or.inr hset
    · cases he
      exact Or.inl rfl
    · cases he
  | stopped =>
    exact ⟨Nat.le_refl _, List.prefix_refl _, fun _ => id, fun _ => trivial,
      fun _ ids hids => absurd hids (hanswered ids), fun p hp => Or.inl ⟨rfl, hp⟩⟩
  | raised =>
    have hheld : w.keeper.held.without [job.id] = [] := by
      refine List.eq_nil_iff_forall_not_mem.mpr fun p hp => ?_
      obtain ⟨hp, hid⟩ := JobAttempts.mem_without.mp hp
      exact hid (List.mem_singleton.mpr (hok.resolve_left (fun hne => hne rfl) p hp))
    refine ⟨Nat.le_refl _, List.prefix_refl _, fun _ => id, fun _ => ⟨Nat.succ_ne_zero _, hheld⟩,
      fun _ ids hids => absurd hids (hanswered ids), fun p hp => ?_⟩
    have hp' : p ∈ w.keeper.held.without [job.id] := hp
    rw [hheld] at hp'
    exact absurd hp' List.not_mem_nil

/-- One more step of the runner. -/
theorem Runs.step (h : Runs cfg w w') (r : Readings) (hs : w'.runnerStep cfg r = some w'') :
    Runs cfg w w'' :=
  Reaches.tail h trivial (show Worker.step cfg w' (.runner r) = some w'' from hs)

/-- Between two turns, with the lock free, and having written nothing since. -/
structure Idling (w : Worker) (log : List (BatchEvent JobId ℤ)) (snapshots : List ClaimedJob) :
    Prop where
  lock : w.lock = none
  running : w.keeper.running = none
  log : w.log = log
  snapshots : w.snapshots = snapshots

/-- The database cannot be reached. -/
def unreachable : Readings := { fails := true }

/-- **A turn while the database cannot be reached**: the renewal before it fails, and the job is dropped. -/
theorem runs_dropped {index : ℕ} {job : ClaimedJob} {log : List (BatchEvent JobId ℤ)}
    {snapshots : List ClaimedJob} (h : Idling w log snapshots) (hpc : w.runner = .turn index)
    (hindex : index ≠ 0) (hjob : snapshots[index]? = some job) :
    ∃ w', Runs cfg w w' ∧ w'.runner = .turn (index + 1) ∧ Idling w' log snapshots := by
  obtain ⟨hlock, hrun, rfl, rfl⟩ := h
  have hfree : ¬ w.lock.isSome = true := by
    rw [hlock]
    rintro ⟨⟩
  let w₁ : Worker := { w with runner := .stillHeld index job .abandon }
  have h₁ : w.runnerStep cfg unreachable = some w₁ := by
    rw [runnerStep, hpc]
    dsimp only
    rw [hjob]
    dsimp only
    rw [if_neg (by rintro ⟨⟩), if_neg hindex]
  let w₂ : Worker := { w with runner := .stillHeld index job .lock }
  have h₂ : w₁.runnerStep cfg unreachable = some w₂ := by
    show (w₁.renewStep cfg .runner unreachable .abandon).map _ = _
    have habandon : w₁.keeper.abandonIfOverdue cfg.maxRuntimeSeconds unreachable.monotonic =
        (none, w₁.keeper) := by
      rw [LeaseKeeper.abandonIfOverdue, show w₁.keeper.running = none from hrun]
    rw [renewStep, if_neg (show ¬ w₁.lock.isSome = true from hfree), habandon]
    rfl
  -- with nothing held the renewal returns before its round trip
  by_cases hheld : w.keeper.held.isEmpty = true
  · refine ⟨{ w with runner := .turn (index + 1) }, ((Runs.step .refl _ h₁).step _ h₂).step
      unreachable ?_, rfl, hlock, hrun, rfl, rfl⟩
    show (w₂.renewStep cfg .runner unreachable .lock).map _ = _
    rw [renewStep, if_neg (show ¬ w₂.lock.isSome = true from hfree),
      if_pos (show w₂.keeper.held.isEmpty = true from hheld), Option.map_some]
    dsimp only
    rw [if_neg List.not_mem_nil]
  · let w₃ : Worker := { w with runner := .stillHeld index job .roundTrip, lock := some .runner }
    have h₃ : w₂.runnerStep cfg unreachable = some w₃ := by
      show (w₂.renewStep cfg .runner unreachable .lock).map _ = _
      rw [renewStep, if_neg (show ¬ w₂.lock.isSome = true from hfree),
        if_neg (show ¬ w₂.keeper.held.isEmpty = true from hheld)]
      rfl
    let w₄ : Worker := { w₃ with runner := .stillHeld index job .failed }
    have h₄ : w₃.runnerStep cfg unreachable = some w₄ := rfl
    let w₅ : Worker := { w with runner := .drop index job, lock := none }
    have h₅ : w₄.runnerStep cfg unreachable = some w₅ := by
      let keeper := w.keeper.fenceIfSilent cfg.leaseSeconds cfg.intervalSeconds 0
      -- no handler runs here, so that nothing is fenced
      have hfence : keeper = w.keeper := by
        show w.keeper.fenceIfSilent cfg.leaseSeconds cfg.intervalSeconds 0 = w.keeper
        rw [LeaseKeeper.fenceIfSilent, hrun]
      show some { w₅ with keeper := keeper } = some w₅
      rw [hfence]
    have h₆ : w₅.runnerStep cfg unreachable =
        some { w₅ with keeper := w.keeper.drop job.id, runner := .turn (index + 1) } := rfl
    exact ⟨_, (((((Runs.step .refl _ h₁).step _ h₂).step _ h₃).step _ h₄).step _ h₅).step _ h₆,
      rfl, rfl, hrun, rfl, rfl⟩

/-- **While the database cannot be reached** every job behind is dropped at its turn, and the call ends without
a renewal and without a release. -/
theorem runs_unreachable {index : ℕ} {log : List (BatchEvent JobId ℤ)} {snapshots : List ClaimedJob}
    (h : Idling w log snapshots) (hpc : w.runner = .turn index) (hindex : index ≠ 0) :
    ∃ w', Runs cfg w w' ∧ w'.runner = .idle ∧ w'.log = log := by
  -- by induction on the jobs that are left
  induction hn : snapshots.length - index generalizing w index with
  | zero =>
    obtain ⟨hlock, -, rfl, rfl⟩ := h
    have hnone : w.snapshots[index]? = none := List.getElem?_eq_none (by omega)
    let w₁ : Worker := { w with runner := .clear }
    have h₁ : w.runnerStep cfg unreachable = some w₁ := by
      rw [runnerStep, hpc]
      dsimp only
      rw [hnone]
    have h₂ : w₁.runnerStep cfg unreachable =
        some { w₁ with keeper := w.keeper.clear, runner := .idle } := by
      show w₁.locked _ = _
      rw [locked, show w₁.lock = none from hlock]
      rfl
    exact ⟨_, (Runs.step .refl _ h₁).step _ h₂, rfl, rfl⟩
  | succ n ih =>
    have hlt : index < snapshots.length := by omega
    obtain ⟨w₁, hr₁, hpc₁, h₁⟩ := @runs_dropped cfg _ _ _ _ _ h hpc hindex (List.getElem?_eq_getElem hlt)
    obtain ⟨w₂, hr₂, hidle, hlog⟩ := ih h₁ hpc₁ (Nat.succ_ne_zero _) (by omega)
    exact ⟨w₂, hr₁.trans hr₂, hidle, hlog⟩

end Worker

open Worker in
/-- **A worker in trouble gives the rest of its batch back exactly when the outcome write of the job that got it
there does not raise, or nothing else of the batch is held any more**, as after an abandonment, which has
given back what waited. -/
theorem handed_back_iff {cfg : RunnerConfig} {db : Db} {monotonic : ℚ} {w w' : Worker} {r : Readings}
    {index : ℕ} {job : ClaimedJob} {lost : EventRef} {execution : Execution}
    (h : Runs cfg (init db monotonic) w) (hpc : w.runner = .finish index job lost execution)
    (htrouble : w.InTrouble lost execution) (hs : w.step cfg (.runner r) = some w') :
    (∀ w'', Runs cfg w' w'' → HandedBack w' w'') ↔
      execution ≠ .raised ∨ ∀ p ∈ w.keeper.held, p.1 = job.id := by
  have hinv := ((inv_init db monotonic).runs h).1
  have hinv' := step_inv hinv hs
  constructor
  · intro hback
    by_contra hnot
    obtain ⟨hraised, hheld⟩ := not_or.mp hnot
    obtain rfl := not_not.mp hraised
    push Not at hheld
    obtain ⟨p, hp, hid⟩ := hheld
    have hrun : (w.keeper.finish job.id).running = none :=
      Option.map_eq_none_iff.mp (LeaseKeeper.runningId_finish (hinv.at hpc))
    rw [step, runnerStep, hpc] at hs
    obtain ⟨hlock, he⟩ := locked_some hs
    have hidling : Idling w' w'.log w'.snapshots := by
      rw [← he]
      exact ⟨hlock, hrun, rfl, rfl⟩
    have hp' : p ∈ w'.keeper.held := by
      rw [← he]
      exact JobAttempts.mem_without.mpr ⟨hp, fun hm => hid (List.mem_singleton.mp hm)⟩
    obtain ⟨w'', hr, hidle, hlog⟩ :=
      @runs_unreachable cfg _ _ _ _ hidling (by rw [← he]) (Nat.succ_ne_zero index)
    rcases (hback w'' hr).released (Or.inr hidle) p hp' with hcount | ⟨ids, hm, -⟩
    · -- what is held was not released
      have hnot : (w'.batch, p.1) ∉ (releasedIn w'.log).map Lease.key :=
        (hinv'.custody.only_held (List.mem_map_of_mem hp')).2
      rw [hlog, List.count_eq_zero_of_not_mem hnot] at hcount
      cases hcount
    · rw [hlog, List.drop_length] at hm
      exact absurd hm List.not_mem_nil
  · intro hok w'' hr
    have hafter := (aftermath_finish hinv hpc htrouble hs hok).runs hinv' hr
    exact hafter.handedBack (hinv'.runs hr).1

deriving instance DecidableEq for Execution

/-- The event of the job that is about to be finished, and how its run ended. -/
def RunnerPc.ended : RunnerPc → Option (EventRef × Execution)
  | .finish _ _ lost execution => some (lost, execution)
  | _ => none

/-- Only before `finish` a job has just ended. -/
theorem RunnerPc.eq_finish {pc : RunnerPc} {lost : EventRef} {execution : Execution}
    (h : pc.ended = some (lost, execution)) : ∃ index job, pc = .finish index job lost execution := by
  cases pc with
  | finish index job lost execution =>
    cases h
    exact ⟨index, job, rfl⟩
  | _ => cases h

/-- A worker whose handlers may take an hour. -/
def patientRunner : RunnerConfig := { sampleRunner with maxRuntimeSeconds := 3600 }

/-- Two jobs are claimed; while the handler of the first runs, a renewal fails for so long that the job is
fenced. Then its outcome is written, or the write raises. -/
def fencedActs (raises : Bool) : List Worker.Act :=
  [Worker.Act.other (.insert sampleEvent "mailer" defaultQueue 3 0 none "first"),
    Worker.Act.other (.insert sampleEvent "pager" defaultQueue 3 0 none "second")] ++
    List.replicate 8 (Worker.Act.runner {}) ++
    List.replicate 5 (Worker.Act.heartbeat { monotonic := 50, fails := true }) ++
    List.replicate 2 (Worker.Act.runner {}) ++ [Worker.Act.runner { fails := raises }]

/-- The state after that. -/
def fenced (raises : Bool) : Worker :=
  runTo (Worker.step patientRunner) (fun _ _ => True) (Worker.init Db.empty 0) (fencedActs raises)

/-- The sample is a run. -/
theorem runs_fenced (raises : Bool) :
    Worker.Runs patientRunner (Worker.init Db.empty 0) (fenced raises) := by
  refine reaches_runTo ?_
  cases raises <;> decide +kernel

/-- The state in which the first job has ended. -/
def fencedEnded (raises : Bool) : Worker :=
  ((fenced raises).step patientRunner (.runner {})).getD (fenced raises)

/-- The job that was fenced ends. -/
theorem step_fenced (raises : Bool) :
    (fenced raises).step patientRunner (.runner {}) = some (fencedEnded raises) := by
  have hstep : ((fenced raises).step patientRunner (.runner {})).isSome = true := by
    cases raises <;> decide +kernel
  obtain ⟨w, hw⟩ := Option.isSome_iff_exists.mp hstep
  rw [fencedEnded, hw, Option.getD_some]

/-- The first job is the one that ends, and its event is set. -/
theorem fenced_ended (raises : Bool) :
    (∃ index job, (fenced raises).runner = .finish index job 0
      (if raises then .raised else .returned false)) ∧ (fenced raises).keeper.isSet 0 = true := by
  constructor
  · refine RunnerPc.eq_finish ?_
    cases raises <;> decide +kernel
  · cases raises <;> decide +kernel

/-- The fenced job's outcome is written, and the second job goes back while the worker runs on. -/
theorem handed_back_iff_fenced :
    Worker.HandedBack (fencedEnded false)
      (runTo (Worker.step patientRunner) (fun _ _ => True) (fencedEnded false)
      (List.replicate 8 (.runner {}))) := by
  obtain ⟨⟨index, job, hpc⟩, hset⟩ := fenced_ended false
  exact (handed_back_iff (runs_fenced false) hpc (Or.inl hset) (step_fenced false)).mpr
    (Or.inl (by rintro ⟨⟩)) _ (reaches_runTo (by decide +kernel))

/-- **The outcome write of the fenced job raises**, the database answers again, and the worker starts the
second job. -/
theorem not_handed_back :
    ¬ ∀ (cfg : RunnerConfig) (db : Db) (monotonic : ℚ) (w w' w'' : Worker) (r : Readings) (index : ℕ)
      (job : ClaimedJob) (lost : EventRef) (execution : Execution),
      Worker.Runs cfg (Worker.init db monotonic) w → w.runner = .finish index job lost execution →
        w.InTrouble lost execution → w.step cfg (.runner r) = some w' → Worker.Runs cfg w' w'' →
          Worker.HandedBack w' w'' := by
  intro hall
  obtain ⟨⟨index, job, hpc⟩, hset⟩ := fenced_ended true
  have hr : Worker.Runs patientRunner (fencedEnded true)
      (runTo (Worker.step patientRunner) (fun _ _ => True) (fencedEnded true)
        (List.replicate 8 (.runner {}))) := reaches_runTo (by decide +kernel)
  have hback := hall patientRunner Db.empty 0 _ _ _ {} index job 0 _ (runs_fenced true) hpc
    (Or.inl hset) (step_fenced true) hr
  have hbatch : (fencedEnded true).batch = 1 := by decide +kernel
  have hstarted := hback.unstarted "second"
  rw [hbatch] at hstarted
  exact absurd (hstarted (by decide +kernel)) (by decide +kernel)

end Jasil.Jobs
