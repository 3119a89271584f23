import Jasil.Jobs.Batches

/-! # A worker that falls silent fences itself in time
The fence is looked at only when a renewal fails. It compares a reading of the monotonic clock, taken after the
round trip, with the last one that extended the leases; the leases themselves are stamped with the wall clock, as
it was read before the round trip. For a claim it is read before the queues are backfilled, which is a round trip
of its own.

* **`Timed`**: a worker with an onlooker's stopwatch.
* **`Timed.Spaced`**: what is read next is read no later than one interval after the last beat.
* **`Timed.Prompt`**: no time passes between the reading of `now()` and the round trip that it is for, and the
  table keeps the whole lease.
* **`fence_in_time`**: while extensions are prompt, whatever is read before the running job's event is set is
  read before its lease can have expired; and the fence sets nothing while an extension is recent. -/

namespace Jasil.Jobs

/-! ## The stopwatch -/

/-- What the acting thread's next step is, for the stopwatch. -/
inductive Contact
  /-- `now()` is read for the database. -/
  | asks
  /-- The round trip of a claim begins. -/
  | begins
  /-- A claim or a renewal is over, and `monotonic()` is read. -/
  | answered
  /-- A renewal has failed, and `monotonic()` is read for the fence. -/
  | fences
  /-- There is nothing to renew. -/
  | skips
  | none
  deriving DecidableEq

/-- A beat may end with it. -/
def Contact.ends : Contact → Bool
  | .answered | .fences | .skips => true
  | _ => false

/-- What the next step of `renew` is. -/
def RenewPc.contact (held : JobAttempts) : RenewPc → Contact
  | .roundTrip => .asks
  | .answered _ => .answered
  | .failed => .fences
  | .lock => if held.isEmpty then .skips else .none
  | _ => .none

/-- What the next step of a thread is. -/
def Worker.contact (w : Worker) : Thread → Contact
  | .runner =>
    match w.runner with
    | .idle => .asks
    | .claim _ => .begins
    | .hold _ => .answered
    | .stillHeld _ _ pc => pc.contact w.keeper.held
    | _ => .none
  | .heartbeat =>
    match w.heartbeat with
    | some pc => pc.contact w.keeper.held
    | none => .none

/-- The two clocks, read at one moment. -/
structure Stamp where
  now : Instant
  monotonic : ℚ

/-- A claim or a renewal that extended the leases: when `now()` was read for it, and when its round trip began
and was over. -/
structure Extension where
  asked : Stamp
  began : ℚ
  answered : ℚ

/-- How long the round trip took. -/
def Extension.roundTrip (e : Extension) : ℚ := e.answered - e.began

/-- When a lease that it wrote expires, as `ProcessingJob.claim` and `ProcessingJob.renew` have it and the column
keeps it. -/
def Extension.expires (keeps : Instant → Instant) (e : Extension) (leaseSeconds : ℤ) : Instant :=
  keeps (e.asked.now + timedelta leaseSeconds)

/-- A worker, and the times an onlooker has noted. -/
structure Timed where
  worker : Worker
  /-- The last reading of the monotonic clock. -/
  time : ℚ
  /-- When the last beat of the heartbeat ended. -/
  beat : ℚ
  /-- The last reading of `now()` that each thread made for the database. -/
  asked : Thread → Stamp
  /-- When the round trip that it was for began. -/
  began : Thread → ℚ
  /-- The last extension. -/
  extension : Extension
  /-- There was one, and every renewal since has failed. -/
  failing : Bool

/-- The act of a thread. -/
def Thread.act : Thread → Readings → Worker.Act
  | .runner => .runner
  | .heartbeat => .heartbeat

namespace Timed

/-- A process that starts. -/
def init (db : Db) (now : Instant) (monotonic : ℚ) : Timed where
  worker := Worker.init db monotonic
  time := monotonic
  beat := monotonic
  asked := fun _ => ⟨now, monotonic⟩
  began := fun _ => monotonic
  extension := ⟨⟨now, monotonic⟩, monotonic, monotonic⟩
  failing := false

/-- What a step of a thread is to the onlooker. -/
def observe (v : Timed) (thread : Thread) (r : Readings) : Timed :=
  match v.worker.contact thread with
  | .asks =>
    { v with
      asked := Function.update v.asked thread ⟨r.now, r.monotonic⟩
      began := Function.update v.began thread r.monotonic }
  | .begins => { v with began := Function.update v.began thread r.monotonic }
  | .answered =>
    { v with extension := ⟨v.asked thread, v.began thread, r.monotonic⟩, failing := true }
  | .skips => { v with failing := false }
  | .fences | .none => v

/-- A step of the worker, watched. -/
def step (cfg : RunnerConfig) (v : Timed) (a : Worker.Act) : Option Timed :=
  (v.worker.step cfg a).map fun w =>
    match a with
    | .runner r => { v.observe .runner r with worker := w, time := r.monotonic }
    | .heartbeat r =>
      { v.observe .heartbeat r with
        worker := w
        time := r.monotonic
        -- the beat is over when its call of `renew` is
        beat := if w.heartbeat.isNone then r.monotonic else v.beat }
    | .other _ => { v with worker := w }

/-- **The monotonic clock does not go back, and beats follow each other at most one interval apart.** -/
def Spaced (cfg : RunnerConfig) (v : Timed) (r : Readings) : Prop :=
  v.time ≤ r.monotonic ∧ r.monotonic ≤ v.beat + cfg.intervalSeconds

/-- Every step of the threads is spaced. -/
def SpacedAct (cfg : RunnerConfig) (v : Timed) : Worker.Act → Prop
  | .runner r | .heartbeat r => v.Spaced cfg r
  | .other _ => True

/-- **What a claim or a renewal has to find for its round trip to be all that the fence is behind.** A claim
begins when its `now()` is read, and `DATETIME` takes nothing off the lease that `now()` was read for. -/
def Prompt (cfg : RunnerConfig) (keeps : Instant → Instant) (v : Timed) (thread : Thread)
    (r : Readings) : Prop :=
  (v.worker.contact thread = .begins → r.monotonic = (v.asked thread).monotonic) ∧
    (v.worker.contact thread = .answered →
      (v.asked thread).now + timedelta cfg.leaseSeconds ≤
        keeps ((v.asked thread).now + timedelta cfg.leaseSeconds))

/-- Every step of the threads is spaced and prompt. -/
def PromptAct (cfg : RunnerConfig) (keeps : Instant → Instant) (v : Timed) : Worker.Act → Prop
  | .runner r => v.Spaced cfg r ∧ v.Prompt cfg keeps .runner r
  | .heartbeat r => v.Spaced cfg r ∧ v.Prompt cfg keeps .heartbeat r
  | .other _ => True

/-- The running job has been running throughout: it began before the silence could fence it, and its handler has
not returned. -/
structure Throughout (cfg : RunnerConfig) (v : Timed) (job : Running) : Prop where
  running : v.worker.keeper.running = some job
  started : job.started < v.extension.answered + (cfg.leaseSeconds - cfg.intervalSeconds)
  unfinished : job.finalizing = false

end Timed

/-! ## What the steps do to the keeper -/

namespace LeaseKeeper

/-- **No job begins and no lease is extended**; events are only set. -/
structure Frame (k k' : LeaseKeeper) : Prop where
  lastRenewed : k'.lastRenewed = k.lastRenewed
  length : k.events.length ≤ k'.events.length
  isSet : ∀ event, k.isSet event = true → k'.isSet event = true
  running : ∀ r', k'.running = some r' → ∃ r, k.running = some r ∧ r.lost = r'.lost ∧
    r.started = r'.started ∧ (r'.finalizing = false → r.finalizing = false)

/-- An event that is set stays so. -/
theorem isSet_set {k : LeaseKeeper} {event e : EventRef} (h : k.isSet e = true) :
    (k.set event).isSet e = true := by
  rw [isSet] at h
  show ((k.events.set event true)[e]?).getD false = true
  rw [List.getElem?_set]
  split
  · split
    · rfl
    · rename_i he hlt
      rw [← he, List.getElem?_eq_none (Nat.le_of_not_lt hlt)] at h
      cases h
  · exact h

/-- An event that was made is set by `set`. -/
theorem isSet_set_self {k : LeaseKeeper} {event : EventRef} (h : event < k.events.length) :
    (k.set event).isSet event = true := by
  show ((k.events.set event true)[event]?).getD false = true
  rw [List.getElem?_set_self h]
  rfl

/-- Setting an event makes none. -/
@[simp] theorem length_set (k : LeaseKeeper) (event : EventRef) :
    (k.set event).events.length = k.events.length := List.length_set

/-- Nothing happens to the keeper. -/
theorem Frame.refl (k : LeaseKeeper) : Frame k k :=
  ⟨rfl, Nat.le_refl _, fun _ h => h, fun r h => ⟨r, h, rfl, rfl, id⟩⟩

/-- A step that changes nothing but what is held. -/
theorem Frame.of_eq {k k' : LeaseKeeper} (hlast : k'.lastRenewed = k.lastRenewed)
    (hevents : k'.events = k.events) (hrunning : k'.running = k.running) : Frame k k' := by
  refine ⟨hlast, hevents.symm ▸ Nat.le_refl _, fun e h => ?_, fun r h => ⟨r, hrunning ▸ h, rfl, rfl, id⟩⟩
  show (k'.events[e]?).getD false = true
  rw [hevents]
  exact h

/-- Finalising begins no job. -/
theorem frame_finalize (k : LeaseKeeper) (jobId : JobId) : Frame k (k.finalize jobId) := by
  refine ⟨rfl, Nat.le_refl _, fun _ h => h, fun r' h => ?_⟩
  obtain ⟨r, hr, rfl⟩ := Option.map_eq_some_iff.mp h
  refine ⟨r, hr, ?_⟩
  split
  · exact ⟨rfl, rfl, by rintro ⟨⟩⟩
  · exact ⟨rfl, rfl, id⟩

/-- Finishing begins no job. -/
theorem frame_finish (k : LeaseKeeper) (jobId : JobId) : Frame k (k.finish jobId) :=
  ⟨rfl, Nat.le_refl _, fun _ h => h, fun r' h => ⟨r', (Option.filter_eq_some_iff.mp h).1, rfl, rfl, id⟩⟩

/-- Clearing begins no job. -/
theorem frame_clear (k : LeaseKeeper) : Frame k k.clear :=
  ⟨rfl, Nat.le_refl _, fun _ h => h, by rintro r' ⟨⟩⟩

/-- Abandoning the running job sets its event. -/
theorem frame_abandonIfOverdue {k k' : LeaseKeeper} {maxRuntimeSeconds monotonic : ℚ}
    {a : Option Abandonment} (h : k.abandonIfOverdue maxRuntimeSeconds monotonic = (a, k')) :
    Frame k k' := by
  rw [abandonIfOverdue] at h
  cases hr : k.running with
  | none =>
    rw [hr] at h
    obtain rfl := (Prod.mk.inj h).2
    exact .refl k
  | some running =>
    rw [hr] at h
    dsimp only at h
    split at h
    · obtain rfl := (Prod.mk.inj h).2
      exact .refl k
    · obtain rfl := (Prod.mk.inj h).2
      refine ⟨rfl, (length_set k _).ge, fun e he => isSet_set he, fun r' h' => ?_⟩
      obtain rfl := Option.some.inj h'
      exact ⟨running, hr, rfl, rfl, id⟩

/-- The fence sets the running job's event, if any. -/
theorem frame_fenceIfSilent (k : LeaseKeeper) (leaseSeconds : ℤ) (intervalSeconds monotonic : ℚ) :
    Frame k (k.fenceIfSilent leaseSeconds intervalSeconds monotonic) := by
  unfold fenceIfSilent
  split
  · exact .refl k
  · split
    · exact .refl k
    · exact ⟨rfl, (length_set k _).ge, fun e he => isSet_set he, fun r h => ⟨r, h, rfl, rfl, id⟩⟩

/-- **After the fence was looked at**, a running job whose event is still not set has been heard of recently. -/
theorem silent_lt_of_unset {k : LeaseKeeper} {leaseSeconds : ℤ} {intervalSeconds monotonic : ℚ}
    {running : Running} (hrunning : k.running = some running) (hfin : running.finalizing = false)
    (hmade : running.lost < k.events.length)
    (hunset : (k.fenceIfSilent leaseSeconds intervalSeconds monotonic).isSet running.lost = false) :
    monotonic - k.lastRenewed < leaseSeconds - intervalSeconds := by
  by_contra hsilent
  have hset : (k.fenceIfSilent leaseSeconds intervalSeconds monotonic).isSet running.lost = true := by
    rw [fenceIfSilent, hrunning]
    dsimp only
    split
    · rename_i hor
      rcases hor with hf | hs | hlt
      · cases hfin.symm.trans hf
      · exact hs
      · exact absurd hlt hsilent
    · exact isSet_set_self hmade
  cases hunset.symm.trans hset

/-- What a renewal that succeeded does. -/
theorem renewed_frame (k : LeaseKeeper) (ids : List JobId) (monotonic : ℚ) :
    (k.renewed ids monotonic).lastRenewed = monotonic ∧
      (k.renewed ids monotonic).running = k.running ∧
      (k.renewed ids monotonic).events.length = k.events.length := by
  unfold renewed
  dsimp only
  split
  · rename_i hnone
    exact ⟨rfl, rfl, rfl⟩
  · split
    · exact ⟨rfl, rfl, length_set _ _⟩
    · exact ⟨rfl, rfl, rfl⟩

end LeaseKeeper

/-- What a step does to the keeper, by what it is for the stopwatch. -/
inductive KeeperMove (cfg : RunnerConfig) (r : Readings) (k : LeaseKeeper) :
    Contact → LeaseKeeper → Prop
  | frame {c : Contact} {k' : LeaseKeeper} :
      k.Frame k' → c ≠ .answered → c ≠ .fences → KeeperMove cfg r k c k'
  | began (jobId : JobId) : KeeperMove cfg r k .none (k.begin jobId r.monotonic).2
  | held (jobAttempts : JobAttempts) : KeeperMove cfg r k .answered (k.hold jobAttempts r.monotonic)
  | renewed (ids : List JobId) : KeeperMove cfg r k .answered (k.renewed ids r.monotonic)
  | fenced : KeeperMove cfg r k .fences
      (k.fenceIfSilent cfg.leaseSeconds cfg.intervalSeconds r.monotonic)

namespace Worker

variable {cfg : RunnerConfig} {thread : Thread} {w w' : Worker} {r : Readings} {pc : RenewPc}
  {renewal : Renewal}

/-- **A renewal's step**, and that one which ends the call is no other. -/
theorem renewStep_keeper (h : w.renewStep cfg thread r pc = some (renewal, w')) :
    KeeperMove cfg r w.keeper (pc.contact w.keeper.held) w'.keeper ∧
      ((∀ pc', renewal ≠ .going pc') → (pc.contact w.keeper.held).ends = true) := by
  cases pc with
  | abandon =>
    rw [renewStep] at h
    split at h
    · cases h
    · split at h
      · obtain ⟨rfl, rfl⟩ := Prod.mk.inj (Option.some.inj h)
        exact ⟨.frame (.refl _) (by rintro ⟨⟩) (by rintro ⟨⟩), fun hno => absurd rfl (hno _)⟩
      · rename_i a keeper ha
        have hframe := LeaseKeeper.frame_abandonIfOverdue ha
        dsimp only at h
        split at h
        · split at h
          · obtain ⟨rfl, rfl⟩ := Prod.mk.inj (Option.some.inj h)
            exact ⟨.frame hframe (by rintro ⟨⟩) (by rintro ⟨⟩), fun hno => absurd rfl (hno _)⟩
          · obtain ⟨rfl, rfl⟩ := Prod.mk.inj (Option.some.inj h)
            exact ⟨.frame hframe (by rintro ⟨⟩) (by rintro ⟨⟩), fun hno => absurd rfl (hno _)⟩
        · obtain ⟨rfl, rfl⟩ := Prod.mk.inj (Option.some.inj h)
          exact ⟨.frame hframe (by rintro ⟨⟩) (by rintro ⟨⟩), fun hno => absurd rfl (hno _)⟩
  | close batch jobId attempt waiting =>
    obtain ⟨rfl, rfl⟩ := Prod.mk.inj (Option.some.inj h)
    exact ⟨.frame (.refl _) (by rintro ⟨⟩) (by rintro ⟨⟩), fun hno => absurd rfl (hno _)⟩
  | release batch waiting =>
    obtain ⟨rfl, rfl⟩ := Prod.mk.inj (Option.some.inj h)
    have hkeeper : (w.releaseJobs cfg r batch waiting).keeper = w.keeper := by
      rcases @releaseJobs_cases cfg w r batch waiting with ⟨-, he⟩ | ⟨db, -, he⟩ <;> rw [he]
      rfl
    rw [hkeeper]
    exact ⟨.frame (.refl _) (by rintro ⟨⟩) (by rintro ⟨⟩), fun hno => absurd rfl (hno _)⟩
  | lock =>
    rw [renewStep] at h
    rw [RenewPc.contact]
    split at h
    · cases h
    · split at h
      · obtain ⟨rfl, rfl⟩ := Prod.mk.inj (Option.some.inj h)
        rename_i hempty
        rw [if_pos hempty]
        exact ⟨.frame (.refl _) (by rintro ⟨⟩) (by rintro ⟨⟩), fun _ => rfl⟩
      · obtain ⟨rfl, rfl⟩ := Prod.mk.inj (Option.some.inj h)
        rename_i hheld
        rw [if_neg hheld]
        exact ⟨.frame (.refl _) (by rintro ⟨⟩) (by rintro ⟨⟩), fun hno => absurd rfl (hno _)⟩
  | roundTrip =>
    rw [renewStep] at h
    split at h
    · obtain ⟨rfl, rfl⟩ := Prod.mk.inj (Option.some.inj h)
      exact ⟨.frame (.refl _) (by rintro ⟨⟩) (by rintro ⟨⟩), fun hno => absurd rfl (hno _)⟩
    · obtain ⟨rfl, rfl⟩ := Prod.mk.inj (Option.some.inj h)
      exact ⟨.frame (.refl _) (by rintro ⟨⟩) (by rintro ⟨⟩), fun hno => absurd rfl (hno _)⟩
  | answered ids =>
    obtain ⟨rfl, rfl⟩ := Prod.mk.inj (Option.some.inj h)
    exact ⟨.renewed ids, fun _ => rfl⟩
  | failed =>
    obtain ⟨rfl, rfl⟩ := Prod.mk.inj (Option.some.inj h)
    exact ⟨.fenced, fun _ => rfl⟩

/-- A step of the runner. -/
theorem runnerStep_keeper (h : w.runnerStep cfg r = some w') :
    KeeperMove cfg r w.keeper (w.contact .runner) w'.keeper := by
  rw [contact]
  -- only `begin`, `hold` and a renewal are more than a frame of the keeper
  cases hpc : w.runner with
  | begin index job =>
    rw [runnerStep, hpc] at h
    obtain ⟨-, rfl⟩ := locked_some h
    exact .began job.id
  | hold snapshots =>
    rw [runnerStep, hpc] at h
    obtain ⟨-, rfl⟩ := locked_some h
    exact .held _
  | stillHeld index job pc =>
    rw [runnerStep, hpc] at h
    obtain ⟨⟨renewal, w₁⟩, hstep, rfl⟩ := Option.map_eq_some_iff.mp h
    have hmove := (renewStep_keeper hstep).1
    cases renewal with
    | going pc₁ => exact hmove
    | raised => exact hmove
    | returned ids =>
      dsimp only
      split <;> exact hmove
  | idle =>
    refine .frame ?_ (by rintro ⟨⟩) (by rintro ⟨⟩)
    rw [runnerStep, hpc] at h
    exact Option.some.inj h ▸ .refl _
  | backfill now =>
    refine .frame ?_ (by rintro ⟨⟩) (by rintro ⟨⟩)
    rw [runnerStep, hpc] at h
    obtain ⟨db, backfilled, he⟩ := w.backfill_cases r
    rw [he] at h
    exact Option.some.inj h ▸ .refl _
  | claim now =>
    refine .frame ?_ (by rintro ⟨⟩) (by rintro ⟨⟩)
    rw [runnerStep, hpc] at h
    dsimp only at h
    split at h
    · exact Option.some.inj h ▸ .refl _
    · split at h
      · exact Option.some.inj h ▸ .refl _
      · split at h <;> exact Option.some.inj h ▸ .refl _
  | turn index =>
    refine .frame ?_ (by rintro ⟨⟩) (by rintro ⟨⟩)
    rw [runnerStep, hpc] at h
    dsimp only at h
    split at h
    · exact Option.some.inj h ▸ .refl _
    · split_ifs at h <;> exact Option.some.inj h ▸ .refl _
  | execute index job lost | ran index lost lostClaim =>
    refine .frame ?_ (by rintro ⟨⟩) (by rintro ⟨⟩)
    rw [runnerStep, hpc] at h
    dsimp only at h
    split at h <;> exact Option.some.inj h ▸ .refl _
  | markStarted index job lost | handle index job lost =>
    refine .frame ?_ (by rintro ⟨⟩) (by rintro ⟨⟩)
    rw [runnerStep, hpc] at h
    exact Option.some.inj h ▸ .refl _
  | write index job lost ending =>
    refine .frame ?_ (by rintro ⟨⟩) (by rintro ⟨⟩)
    rw [runnerStep, hpc] at h
    obtain ⟨db, pc, he, -⟩ := @writeOutcome_cases w cfg r index job lost ending
    have hw := Option.some.inj h
    rw [he] at hw
    exact hw ▸ .refl _
  | finalize index job lost ending =>
    refine .frame ?_ (by rintro ⟨⟩) (by rintro ⟨⟩)
    rw [runnerStep, hpc] at h
    obtain ⟨-, rfl⟩ := locked_some h
    exact w.keeper.frame_finalize job.id
  | finish index job lost execution =>
    refine .frame ?_ (by rintro ⟨⟩) (by rintro ⟨⟩)
    rw [runnerStep, hpc] at h
    obtain ⟨-, rfl⟩ := locked_some h
    cases execution <;> exact w.keeper.frame_finish job.id
  | release batch waiting =>
    refine .frame ?_ (by rintro ⟨⟩) (by rintro ⟨⟩)
    rw [runnerStep, hpc] at h
    obtain rfl := Option.some.inj h
    rcases @releaseJobs_cases cfg w r batch waiting with ⟨-, he⟩ | ⟨db, -, he⟩ <;> rw [he] <;>
      exact .refl _
  | drop _ _ | takeWaiting =>
    refine .frame ?_ (by rintro ⟨⟩) (by rintro ⟨⟩)
    rw [runnerStep, hpc] at h
    obtain ⟨-, rfl⟩ := locked_some h
    exact .of_eq rfl rfl rfl
  | clear =>
    refine .frame ?_ (by rintro ⟨⟩) (by rintro ⟨⟩)
    rw [runnerStep, hpc] at h
    obtain ⟨-, rfl⟩ := locked_some h
    exact w.keeper.frame_clear

/-- A step of the heartbeat; a beat ends with a renewal that succeeded, failed, or had nothing to renew. -/
theorem heartbeatStep_keeper (h : w.heartbeatStep cfg r = some w') :
    KeeperMove cfg r w.keeper (w.contact .heartbeat) w'.keeper ∧
      (w'.heartbeat = none → (w.contact .heartbeat).ends = true) := by
  rw [heartbeatStep] at h
  rw [contact]
  cases hb : w.heartbeat with
  | none =>
    rw [hb] at h
    obtain rfl := Option.some.inj h
    exact ⟨.frame (.refl _) (by rintro ⟨⟩) (by rintro ⟨⟩), by rintro ⟨⟩⟩
  | some pc =>
    rw [hb] at h
    obtain ⟨⟨renewal, w₁⟩, hstep, rfl⟩ := Option.map_eq_some_iff.mp h
    obtain ⟨hmove, hends⟩ := renewStep_keeper hstep
    cases renewal with
    | going pc₁ => exact ⟨hmove, by rintro ⟨⟩⟩
    | returned ids => exact ⟨hmove, fun _ => hends (by rintro _ ⟨⟩)⟩
    | raised => exact ⟨hmove, fun _ => hends (by rintro _ ⟨⟩)⟩

end Worker

/-! ## The invariant -/

namespace Timed

variable {cfg : RunnerConfig} {v v' : Timed} {thread : Thread} {r : Readings}

/-- What the onlooker notes of a thread's step. -/
theorem step_thread (h : v.step cfg (thread.act r) = some v') :
    v.worker.step cfg (thread.act r) = some v'.worker ∧ v'.time = r.monotonic ∧
      v'.extension = (v.observe thread r).extension ∧ v'.failing = (v.observe thread r).failing ∧
      (v'.beat = v.beat ∨
        v'.beat = r.monotonic ∧ thread = .heartbeat ∧ v'.worker.heartbeat = none) := by
  obtain ⟨w, hw, rfl⟩ := Option.map_eq_some_iff.mp h
  have hbeat : (v.observe .runner r).beat = v.beat := by
    rw [observe]
    split <;> rfl
  cases thread with
  | runner => exact ⟨hw, rfl, rfl, rfl, Or.inl hbeat⟩
  | heartbeat =>
    refine ⟨hw, rfl, rfl, rfl, ?_⟩
    show (if w.heartbeat.isNone then r.monotonic else v.beat) = v.beat ∨
      (if w.heartbeat.isNone then r.monotonic else v.beat) = r.monotonic ∧ _
    split
    · rename_i hnone
      exact Or.inr ⟨rfl, rfl, Option.isNone_iff_eq_none.mp hnone⟩
    · exact Or.inl rfl

/-- What holds in every state of a run that is spaced. -/
structure Inv (cfg : RunnerConfig) (v : Timed) : Prop where
  beat : v.beat ≤ v.time
  /-- The keeper knows when the leases were last extended. -/
  answered : v.worker.keeper.lastRenewed = v.extension.answered
  made : ∀ job, v.worker.keeper.running = some job → job.lost < v.worker.keeper.events.length
  /-- **A job that was not fenced at the last beat could not yet be.** -/
  timely : v.failing = true → ∀ job, v.Throughout cfg job →
    v.worker.keeper.isSet job.lost = false →
      v.beat < v.extension.answered + (cfg.leaseSeconds - cfg.intervalSeconds)

/-- It holds when the process starts. -/
theorem inv_init (db : Db) (now : Instant) (monotonic : ℚ) : (init db now monotonic).Inv cfg :=
  ⟨le_refl _, rfl, by rintro _ ⟨⟩, fun _ _ h => by cases h.running⟩

/-- What the onlooker notes of a thread's questions. -/
theorem step_asked (h : v.step cfg (thread.act r) = some v') :
    v'.asked = (v.observe thread r).asked ∧ v'.began = (v.observe thread r).began := by
  obtain ⟨w, -, rfl⟩ := Option.map_eq_some_iff.mp h
  cases thread with
  | runner | heartbeat => exact ⟨rfl, rfl⟩

/-- What the move of the keeper is to the onlooker. -/
theorem keeperMove_of_step (h : v.worker.step cfg (thread.act r) = some v'.worker) :
    KeeperMove cfg r v.worker.keeper (v.worker.contact thread) v'.worker.keeper := by
  cases thread with
  | runner => exact Worker.runnerStep_keeper h
  | heartbeat => exact (Worker.heartbeatStep_keeper h).1

/-- **A step of a thread keeps the invariant.** -/
theorem Inv.after_thread (h : v.Inv cfg) (hroom : cfg.intervalSeconds < cfg.leaseSeconds)
    (hspaced : v.Spaced cfg r) (hs : v.step cfg (thread.act r) = some v') : v'.Inv cfg := by
  obtain ⟨hw, htime, hext, hfailing, hbeat⟩ := step_thread hs
  have hmove := keeperMove_of_step hw
  have hnow : v.beat ≤ r.monotonic := h.beat.trans hspaced.1
  have hbeat_le : v'.beat ≤ r.monotonic := by
    rcases hbeat with hb | ⟨hb, -⟩
    · exact hb.trans_le hnow
    · exact hb.le
  have hended : v'.beat = v.beat ∨ (v.worker.contact thread).ends = true := by
    rcases hbeat with hb | ⟨-, rfl, hnone⟩
    · exact Or.inl hb
    · exact Or.inr ((Worker.heartbeatStep_keeper hw).2 hnone)
  rw [observe] at hext hfailing
  generalize hc : v.worker.contact thread = c at hmove hext hfailing hended
  generalize hk : v'.worker.keeper = k' at hmove
  refine ⟨htime ▸ hbeat_le, ?_, ?_, ?_⟩
  · -- the last extension
    rw [hk, hext]
    cases hmove with
    | frame hframe hans _ =>
      rw [hframe.lastRenewed, h.answered]
      cases c with
      | answered => exact absurd rfl hans
      | _ => rfl
    | began _ => exact h.answered
    | held _ => rfl
    | renewed ids => exact (v.worker.keeper.renewed_frame ids r.monotonic).1
    | fenced =>
      rw [(v.worker.keeper.frame_fenceIfSilent _ _ _).lastRenewed]
      exact h.answered
  · -- the running job's event
    intro job hjob
    rw [hk] at hjob ⊢
    have hframe : ∀ {k}, v.worker.keeper.Frame k → k.running = some job →
        job.lost < k.events.length := by
      intro k hframe hjob
      obtain ⟨old, hold, hlost, -⟩ := hframe.running job hjob
      exact hlost ▸ (h.made old hold).trans_le hframe.length
    cases hmove with
    | frame hf _ _ => exact hframe hf hjob
    | began jobId =>
      obtain rfl := Option.some.inj hjob
      show v.worker.keeper.events.length < (v.worker.keeper.events ++ [false]).length
      rw [List.length_append]
      exact Nat.lt_succ_self _
    | held _ => cases hjob
    | renewed ids =>
      obtain ⟨-, hrunning, hlength⟩ := v.worker.keeper.renewed_frame ids r.monotonic
      rw [hlength]
      exact h.made job (hrunning ▸ hjob)
    | fenced => exact hframe (v.worker.keeper.frame_fenceIfSilent _ _ _) hjob
  · -- the last beat
    intro hfail job ⟨hjob, hstarted, hfin⟩ hunset
    rw [hk] at hjob hunset
    rw [hext] at hstarted ⊢
    rw [hfailing] at hfail
    cases hmove with
    | frame hframe hans _ =>
      obtain ⟨old, hold, hlost, hbegan, hold_fin⟩ := hframe.running job hjob
      have hold_unset : v.worker.keeper.isSet old.lost = false := by
        by_contra hset
        have := hframe.isSet _ (Bool.eq_true_of_not_eq_false hset)
        rw [hlost, hunset] at this
        cases this
      cases c with
      | answered => exact absurd rfl hans
      | skips => cases hfail
      | fences => rename_i hne; exact absurd rfl hne
      | none | asks | begins =>
        rw [hended.resolve_right (by rintro ⟨⟩)]
        exact h.timely hfail old ⟨hold, hbegan ▸ hstarted, hold_fin hfin⟩ hold_unset
    | began jobId =>
      -- it begins after the last beat
      obtain rfl := Option.some.inj hjob
      rw [hended.resolve_right (by rintro ⟨⟩)]
      exact hnow.trans_lt hstarted
    | held _ => cases hjob
    | renewed ids =>
      -- the renewal was answered after the last beat
      show v'.beat < r.monotonic + _
      linarith
    | fenced =>
      obtain ⟨old, hold, hlost, -, hold_fin⟩ :=
        (v.worker.keeper.frame_fenceIfSilent _ _ _).running job hjob
      have hsilent := LeaseKeeper.silent_lt_of_unset hold (hold_fin hfin) (h.made old hold)
        (hlost ▸ hunset)
      rw [h.answered] at hsilent
      show v'.beat < v.extension.answered + _
      linarith

/-- **Every spaced step keeps the invariant.** -/
theorem Inv.step {a : Worker.Act} (h : v.Inv cfg) (hroom : cfg.intervalSeconds < cfg.leaseSeconds)
    (hspaced : v.SpacedAct cfg a) (hs : v.step cfg a = some v') : v'.Inv cfg := by
  cases a with
  | runner r => exact @Inv.after_thread cfg v v' .runner r h hroom hspaced hs
  | heartbeat r => exact @Inv.after_thread cfg v v' .heartbeat r h hroom hspaced hs
  | other c =>
    obtain ⟨w, hw, rfl⟩ := Option.map_eq_some_iff.mp hs
    obtain rfl := Option.some.inj hw
    refine ⟨h.beat, h.answered, h.made, fun hfailing job hjob => ?_⟩
    exact h.timely hfailing job ⟨hjob.running, hjob.started, hjob.unfinished⟩

/-! ### Prompt runs -/

variable {keeps : Instant → Instant}

/-- What holds in every state of a run that is prompt. -/
structure Punctual (cfg : RunnerConfig) (keeps : Instant → Instant) (v : Timed) : Prop where
  began : ∀ thread, v.began thread = (v.asked thread).monotonic
  /-- Nothing but the round trip came between the reading of `now()` and the answer, and the lease is whole. -/
  extension : v.failing = true → v.extension.began = v.extension.asked.monotonic ∧
    v.extension.asked.now + timedelta cfg.leaseSeconds ≤ v.extension.expires keeps cfg.leaseSeconds

/-- It holds when the process starts. -/
theorem punctual_init (db : Db) (now : Instant) (monotonic : ℚ) :
    (init db now monotonic).Punctual cfg keeps :=
  ⟨fun _ => rfl, by rintro ⟨⟩⟩

/-- A prompt step of a thread keeps it. -/
theorem Punctual.after_thread (h : v.Punctual cfg keeps) (hprompt : v.Prompt cfg keeps thread r)
    (hs : v.step cfg (thread.act r) = some v') : v'.Punctual cfg keeps := by
  obtain ⟨-, -, hext, hfailing, -⟩ := step_thread hs
  obtain ⟨hasked, hbegan⟩ := step_asked hs
  obtain ⟨hbegins, hanswered⟩ := hprompt
  rw [observe] at hext hfailing hasked hbegan
  -- only what the step tells the database counts from here on
  generalize v.worker.contact thread = c at hext hfailing hasked hbegan hbegins hanswered
  refine ⟨fun other => ?_, fun hfail => ?_⟩
  · rw [hasked, hbegan]
    cases c with
    | asks =>
      by_cases hother : other = thread
      · subst hother
        dsimp only
        rw [Function.update_self, Function.update_self]
      · dsimp only
        rw [Function.update_of_ne hother, Function.update_of_ne hother]
        exact h.began other
    | begins =>
      by_cases hother : other = thread
      · subst hother
        dsimp only
        rw [Function.update_self]
        exact hbegins rfl
      · dsimp only
        rw [Function.update_of_ne hother]
        exact h.began other
    | answered | fences | skips | none => exact h.began other
  · rw [hfailing] at hfail
    rw [hext]
    cases c with
    | answered => exact ⟨h.began thread, hanswered rfl⟩
    | skips => cases hfail
    | asks | begins | fences | none => exact h.extension hfail

/-- **Every step of a prompt run keeps it.** -/
theorem Punctual.step {a : Worker.Act} (h : v.Punctual cfg keeps) (hprompt : v.PromptAct cfg keeps a)
    (hs : v.step cfg a = some v') : v'.Punctual cfg keeps := by
  cases a with
  | runner r => exact @Punctual.after_thread cfg v v' .runner r keeps h hprompt.2 hs
  | heartbeat r => exact @Punctual.after_thread cfg v v' .heartbeat r keeps h hprompt.2 hs
  | other c =>
    obtain ⟨w, -, rfl⟩ := Option.map_eq_some_iff.mp hs
    exact ⟨h.began, h.extension⟩

/-- Every run that is spaced. -/
abbrev Runs (cfg : RunnerConfig) (v v' : Timed) : Prop := Reaches (step cfg) (SpacedAct cfg) v v'

/-- Every run that is spaced and prompt. -/
abbrev PromptRuns (cfg : RunnerConfig) (keeps : Instant → Instant) (v v' : Timed) : Prop :=
  Reaches (step cfg) (PromptAct cfg keeps) v v'

/-- A prompt run is spaced. -/
theorem PromptRuns.runs (h : PromptRuns cfg keeps v v') : Runs cfg v v' := by
  refine h.mono fun v a hprompt => ?_
  cases a with
  | runner r | heartbeat r => exact hprompt.1
  | other c => trivial

/-- It holds in every prompt run. -/
theorem Punctual.runs (h : v.Punctual cfg keeps) (hr : PromptRuns cfg keeps v v') :
    v'.Punctual cfg keeps :=
  hr.invariant (Punctual cfg keeps) h fun _ hinv hok hs => hinv.step hok hs

/-- It holds in every spaced run. -/
theorem Inv.runs (h : v.Inv cfg) (hroom : cfg.intervalSeconds < cfg.leaseSeconds)
    (hr : Runs cfg v v') : v'.Inv cfg :=
  hr.invariant (Inv cfg) h fun _ hinv hok hs => hinv.step hroom hok hs

/-- Since the stamp the two clocks have advanced alike. -/
def Alike (s : Stamp) (r : Readings) : Prop :=
  ((r.now - s.now : ℤ) : ℚ) = (r.monotonic - s.monotonic) * 1000000

/-- **Whatever is read before the event is set** is read within the lease, up to the time between the reading of
`now()` for the extension and its answer. -/
theorem Inv.now_lt (h : v.Inv cfg) (hfailing : v.failing = true) {job : Running}
    (hjob : v.Throughout cfg job) (hunset : v.worker.keeper.isSet job.lost = false)
    (hspaced : v.Spaced cfg r) (halike : Alike v.extension.asked r) :
    (r.now : ℚ) < (v.extension.asked.now + timedelta cfg.leaseSeconds : ℤ) +
      (v.extension.answered - v.extension.asked.monotonic) * 1000000 := by
  have hbeat := h.timely hfailing job hjob hunset
  have hnext := hspaced.2
  have hlt : r.monotonic < v.extension.answered + cfg.leaseSeconds := by linarith
  rw [Alike, Int.cast_sub] at halike
  rw [timedelta_intCast]
  push_cast
  linarith

/-- **Before the event is set the lease cannot have expired**, by the wall clock and up to the round trip. -/
theorem Punctual.now_lt (h : v.Punctual cfg keeps) (hinv : v.Inv cfg) (hfailing : v.failing = true)
    {job : Running} (hjob : v.Throughout cfg job) (hunset : v.worker.keeper.isSet job.lost = false)
    (hspaced : v.Spaced cfg r) (halike : Alike v.extension.asked r) :
    (r.now : ℚ) < v.extension.expires keeps cfg.leaseSeconds + v.extension.roundTrip * 1000000 := by
  have hlt := hinv.now_lt hfailing hjob hunset hspaced halike
  obtain ⟨hbegan, hkept⟩ := h.extension hfailing
  rw [← hbegan] at hlt
  have hkept : ((v.extension.asked.now + timedelta cfg.leaseSeconds : ℤ) : ℚ)
      ≤ v.extension.expires keeps cfg.leaseSeconds := Int.cast_le.mpr hkept
  rw [Extension.roundTrip]
  linarith

/-- **The fence sets nothing while an extension is recent.** -/
theorem Inv.isSet_fences (h : v.Inv cfg) (hs : v.step cfg (thread.act r) = some v')
    (hfences : v.worker.contact thread = .fences)
    (hrecent : r.monotonic - v.extension.answered < cfg.leaseSeconds - cfg.intervalSeconds)
    (event : EventRef) : v'.worker.keeper.isSet event = v.worker.keeper.isSet event := by
  have hmove := keeperMove_of_step (step_thread hs).1
  rw [hfences] at hmove
  generalize hk : v'.worker.keeper = k' at hmove
  cases hmove with
  | frame _ _ hne => exact absurd rfl hne
  | fenced =>
    rw [← h.answered] at hrecent
    rw [LeaseKeeper.fenceIfSilent]
    split
    · rfl
    · rw [if_pos (Or.inr (Or.inr hrecent))]

end Timed

/-- **The self-fence fires in time.** With a lease of at least three intervals, whatever the runner, the
heartbeat and the other processes do while the beats follow each other at most one interval apart: in every
run in which no time passes before the round trips and the table keeps whole leases, while every renewal since
the last extension has failed and the job has been running throughout, whatever is read before its event is
set is read strictly earlier than the round trip of that extension after the lease it wrote expires. And in
every run a failed renewal sets no event within a lease less one interval after an extension. -/
theorem fence_in_time {cfg : RunnerConfig} {keeps : Instant → Instant} {db : Db} {now : Instant} {monotonic : ℚ}
    (hinterval : 0 < cfg.intervalSeconds) (hlease : 3 * cfg.intervalSeconds ≤ cfg.leaseSeconds) :
    (∀ v, Timed.PromptRuns cfg keeps (Timed.init db now monotonic) v →
      ∀ job r, v.failing = true → v.Throughout cfg job → v.worker.keeper.isSet job.lost = false →
        v.Spaced cfg r → Timed.Alike v.extension.asked r →
          (r.now : ℚ) < v.extension.expires keeps cfg.leaseSeconds + v.extension.roundTrip * 1000000) ∧
      ∀ v, Timed.Runs cfg (Timed.init db now monotonic) v →
        ∀ thread r v', v.step cfg (Thread.act thread r) = some v' →
          v.worker.contact thread = .fences →
            r.monotonic - v.extension.answered < cfg.leaseSeconds - cfg.intervalSeconds →
              ∀ event, v'.worker.keeper.isSet event = v.worker.keeper.isSet event := by
  have hroom : cfg.intervalSeconds < cfg.leaseSeconds := by linarith
  have hinit := @Timed.inv_init cfg db now monotonic
  constructor
  · intro v h job r hfailing hjob hunset hspaced halike
    have hpunctual := (Timed.punctual_init db now monotonic).runs h
    exact hpunctual.now_lt (hinit.runs hroom h.runs) hfailing hjob hunset hspaced halike
  · exact fun v h thread r v' hs hfences hrecent => (hinit.runs hroom h).isSet_fences hs hfences hrecent

deriving instance DecidableEq for Running

instance decidableSpacedAct (cfg : RunnerConfig) (v : Timed) :
    (a : Worker.Act) → Decidable (v.SpacedAct cfg a)
  | .runner _ | .heartbeat _ => inferInstanceAs (Decidable (_ ∧ _))
  | .other _ => inferInstanceAs (Decidable True)

instance decidablePrompt (cfg : RunnerConfig) (keeps : Instant → Instant) (v : Timed) (thread : Thread)
    (r : Readings) : Decidable (v.Prompt cfg keeps thread r) :=
  inferInstanceAs (Decidable ((_ → _) ∧ (_ → _)))

instance decidablePromptAct (cfg : RunnerConfig) (keeps : Instant → Instant) (v : Timed) :
    (a : Worker.Act) → Decidable (v.PromptAct cfg keeps a)
  | .runner _ | .heartbeat _ => inferInstanceAs (Decidable ((_ ∧ _) ∧ Timed.Prompt ..))
  | .other _ => inferInstanceAs (Decidable True)

/-- The worker of the sample, with an hour for a handler. -/
def patient : RunnerConfig := { sampleRunner with maxRuntimeSeconds := 3600 }

/-- What both clocks show after so many seconds. -/
def seconds (s : ℕ) : Readings := { now := s * 1000000, monotonic := s }

/-- A renewal of the heartbeat that the database does not answer, up to the look at the fence. -/
def failingBeat (s : ℕ) : List Worker.Act := List.replicate 4 (.heartbeat { seconds s with fails := true })

/-- The look at the fence. -/
def fenceAt (s : ℕ) : Worker.Act := .heartbeat (seconds s)

/-- A job is claimed, which takes a second, and so does its renewal at 19 seconds; then the beats at 40 and 59
seconds fail. -/
def silentActs : List Worker.Act :=
  [Worker.Act.other (.insert sampleEvent "mailer" defaultQueue 3 0 none "first")] ++
    List.replicate 3 (Worker.Act.runner (seconds 0)) ++ List.replicate 5 (Worker.Act.runner (seconds 1)) ++
    List.replicate 4 (Worker.Act.heartbeat (seconds 19)) ++ [Worker.Act.heartbeat (seconds 20)] ++
    failingBeat 40 ++ [fenceAt 40] ++ failingBeat 59

/-- The state after that. -/
def silent : Timed :=
  runTo (Timed.step patient) (Timed.PromptAct patient id) (Timed.init Db.empty 0 0) silentActs

/-- The lease expires at 79 seconds. At 59 seconds the fence sets nothing, and at 79 seconds the event may
still not be set, which is before the second of the round trip is over. -/
theorem fence_in_time_silent :
    ∃ v, silent.step patient (fenceAt 59) = some v ∧
      (∀ event, v.worker.keeper.isSet event = silent.worker.keeper.isSet event) ∧
      (79000000 : ℚ) < v.extension.expires id 60 + v.extension.roundTrip * 1000000 := by
  have hr : Timed.PromptRuns patient id (Timed.init Db.empty 0 0) silent := reaches_runTo (by decide +kernel)
  obtain ⟨v, hs⟩ : ∃ v, silent.step patient (fenceAt 59) = some v :=
    Option.isSome_iff_exists.mp (by decide +kernel)
  have hseen : (silent.step patient (fenceAt 59)).map (fun v =>
      (v.failing, v.worker.keeper.running, v.worker.keeper.isSet 0, v.time, v.beat)) =
        some (true, some ⟨"first", 1, 0, false, false⟩, false, 59, 59) := by decide +kernel
  have hextension : (silent.step patient (fenceAt 59)).map (fun v =>
      (v.extension.asked.now, v.extension.asked.monotonic, v.extension.answered)) =
        some (19000000, 19, 20) := by decide +kernel
  rw [hs, Option.map_some, Option.some.injEq, Prod.mk.injEq, Prod.mk.injEq, Prod.mk.injEq,
    Prod.mk.injEq] at hseen
  rw [hs, Option.map_some, Option.some.injEq, Prod.mk.injEq, Prod.mk.injEq] at hextension
  obtain ⟨hfailing, hrunning, hunset, htime, hbeat⟩ := hseen
  obtain ⟨hnow, hasked, hanswered⟩ := hextension
  have hstarted : (1 : ℚ) < 20 + ((60 : ℤ) - 20) := by norm_num
  have hjob : v.Throughout patient ⟨"first", 1, 0, false, false⟩ :=
    ⟨hrunning, by rw [hanswered]; exact hstarted, rfl⟩
  have hnext : v.Spaced patient (seconds 79) := by
    rw [Timed.Spaced, htime, hbeat]
    decide +kernel
  have halike : Timed.Alike v.extension.asked (seconds 79) := by
    rw [Timed.Alike, hnow, hasked]
    decide +kernel
  obtain ⟨htimely, hquiet⟩ := @fence_in_time patient id Db.empty 0 0 (by decide +kernel) (by decide +kernel)
  have hprompt : Timed.PromptAct patient id silent (fenceAt 59) := by decide +kernel
  refine ⟨v, hs, ?_, htimely v (hr.tail hprompt hs) _ (seconds 79) hfailing hjob hunset hnext halike⟩
  exact hquiet silent (Timed.PromptRuns.runs hr) .heartbeat (seconds 59) v hs (by decide +kernel)
    (by decide +kernel)

/-- `now()` is read and the backfill takes 45 seconds; the claim takes no time; then the beats at 60 and 80
seconds fail. -/
def stalledActs : List Worker.Act :=
  [Worker.Act.other (.insert sampleEvent "mailer" defaultQueue 3 0 none "first"),
    Worker.Act.runner (seconds 0)] ++
    List.replicate 3 (Worker.Act.heartbeat (seconds 20)) ++
    List.replicate 3 (Worker.Act.heartbeat (seconds 40)) ++
    [Worker.Act.runner { seconds 45 with queueAssignments := [("mailer", "mail")] }] ++
    List.replicate 6 (Worker.Act.runner (seconds 45)) ++
    failingBeat 60 ++ [fenceAt 60] ++ failingBeat 80 ++ [fenceAt 80]

/-- The state after that. -/
def stalled : Timed :=
  runTo (Timed.step patient) (Timed.SpacedAct patient) (Timed.init Db.empty 0 0) stalledActs

/-- **The lease expired at 60 seconds**, and at 100 seconds the event may still not be set. -/
theorem fence_in_time_not_backfilled :
    ¬ ∀ (cfg : RunnerConfig) (db : Db) (now : Instant) (monotonic : ℚ) (v : Timed) (job : Running)
        (r : Readings),
      0 < cfg.intervalSeconds → 3 * cfg.intervalSeconds ≤ cfg.leaseSeconds →
        Timed.Runs cfg (Timed.init db now monotonic) v → v.failing = true → v.Throughout cfg job →
          v.worker.keeper.isSet job.lost = false → v.Spaced cfg r → Timed.Alike v.extension.asked r →
            (r.now : ℚ) < v.extension.expires id cfg.leaseSeconds + v.extension.roundTrip * 1000000 := by
  intro hall
  have hr : Timed.Runs patient (Timed.init Db.empty 0 0) stalled := reaches_runTo (by decide +kernel)
  have hjob : stalled.Throughout patient ⟨"first", 45, 0, false, false⟩ :=
    ⟨by decide +kernel, by decide +kernel, rfl⟩
  have hnext : stalled.Spaced patient (seconds 100) := ⟨by decide +kernel, by decide +kernel⟩
  have halike : Timed.Alike stalled.extension.asked (seconds 100) := by
    rw [Timed.Alike]
    decide +kernel
  have hlt := hall patient Db.empty 0 0 stalled _ (seconds 100) (by decide +kernel) (by decide +kernel) hr
    (by decide +kernel) hjob (by decide +kernel) hnext halike
  exact absurd hlt (by decide +kernel)

end Jasil.Jobs
