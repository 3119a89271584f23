import Jasil.Audit.Checkpoints
import Jasil.Core.Pruning

/-! # Applying retention
`_apply_retention`: how far it prunes, and the row that accounts for it.

* **`retentionCutoff`**: the settings' retention, and no further than the newest checkpoint allows.
* **`pruneCutoff`**: on a plain table, the start of the sealed window that lies there.
* **`partitionCutoff`**: on a partitioned table, no further than the floor on the database's clock. -/

namespace Jasil.Audit

/-- What the newest checkpoint allows: nothing under legal hold or without retention. -/
def allowedHorizon (checkpoints : CheckpointTable) : Option Instant :=
  (newest checkpoints).bind fun c =>
    if c.legalHold = false ∧ c.retentionDays > 0 then retentionHorizon c else none

/-- `now - timedelta(days=days)`, when that is a `datetime`. -/
def daysBefore (now days : ℤ) : Except String Instant :=
  if Representable (now - days * day) then .ok (now - days * day)
  else .error "date value out of range"

/-- How far retention reaches; nothing is pruned when there is no cutoff. -/
def retentionCutoff (now : Instant) (settings : AuditSettings) (checkpoints : CheckpointTable) :
    Except String (Option Instant) :=
  if settings.legalHold then .ok none
  else if settings.retentionDays ≤ 0 then .ok none
  else
    match allowedHorizon checkpoints with
    | none => .ok none
    | some horizon => do
      let reached ← daysBefore now settings.retentionDays
      .ok (some (min reached horizon))

/-- On a partitioned table the floor is measured on the database's clock. -/
def partitionCutoff (now databaseNow : Instant) (settings : AuditSettings)
    (checkpoints : CheckpointTable) : Except String (Option Instant) := do
  match ← retentionCutoff now settings checkpoints with
  | none => .ok none
  | some cutoff =>
    let floor ← daysBefore databaseNow settings.retentionFloorDays
    .ok (some (min cutoff floor))

/-- The sealed window that `cutoff` lies in. -/
def sealedAt (checkpoints : CheckpointTable) (cutoff : Instant) : Option AuditCheckpoint :=
  (checkpoints.select fun c => c.windowStart ≤ cutoff ∧ c.windowEnd > cutoff).head?

/-- The row is older than the cutoff. -/
def OlderThan (cutoff : Instant) (r : AuditLog) : Prop := r.occurredAt < cutoff

instance (cutoff : Instant) : DecidablePred (OlderThan cutoff) :=
  fun _ => inferInstanceAs (Decidable (_ < _))

/-- On a plain table whole windows are pruned: the cutoff is the start of the window that `retentionCutoff`
lies in. -/
def pruneCutoff (now : Instant) (settings : AuditSettings) (log : LogTable)
    (checkpoints : CheckpointTable) : Except String (Option Instant) := do
  match ← retentionCutoff now settings checkpoints with
  | none => .ok none
  | some cutoff =>
    match sealedAt checkpoints cutoff with
    | none => .ok none
    | some c => .ok (if log.rowcount (OlderThan c.windowStart) = 0 then none else some c.windowStart)

/-- A timestamp in a details payload: `Z` stands for UTC. -/
def payloadTimestamp (t : Instant) : String :=
  let micros := t % 86400000000 % 1000000
  isoSeconds t ++ (if micros = 0 then "" else "." ++ zeroPadded 6 micros) ++ "Z"

/-- The details of a `audit.retention.prune` row. -/
def pruneDetails (cutoff : Instant) : Json :=
  .obj [("cutoff", .str (payloadTimestamp cutoff)), ("partitions_dropped", .int 0), ("first_day", .null),
    ("last_day", .null)]

/-- The row that accounts for a prune, in the context of `entry`, which has its id and its timestamp. -/
def pruneRow (entry : AuditLog) (cutoff : Instant) : AuditLog :=
  { entry with
    actionId := "audit.retention.prune", category := "system", severity := "medium",
    outcome := "success", actorType := "system", actorId := none, targetType := none, targetId := none,
    targetOwnerId := none, source := "worker", details := pruneDetails cutoff, detailsVersion := 1 }

/-! ## What the cutoff is -/

section Cutoff

variable {now : ℤ} {settings : AuditSettings} {log : LogTable} {checkpoints : CheckpointTable} {cutoff : ℤ}

/-- **A cutoff respects two retentions**: the settings' and the newest checkpoint's. -/
theorem retentionCutoff_some (h : retentionCutoff now settings checkpoints = .ok (some cutoff)) :
    settings.legalHold = false ∧ 0 < settings.retentionDays ∧ cutoff ≤ now - settings.retentionDays * day
      ∧ ∃ last, newest checkpoints = some last ∧ last.legalHold = false ∧ 0 < last.retentionDays
        ∧ retentionHorizon last = some (last.windowEnd - last.retentionDays * day)
        ∧ cutoff ≤ last.windowEnd - last.retentionDays * day := by
  unfold retentionCutoff at h
  split at h
  · exact nomatch h
  rename_i hhold
  split at h
  · exact nomatch h
  rename_i hdays
  cases hallowed : allowedHorizon checkpoints with
  | none =>
    rw [hallowed] at h
    exact nomatch h
  | some horizon =>
    rw [hallowed] at h
    obtain ⟨last, hnewest, hlast⟩ := Option.bind_eq_some_iff.mp hallowed
    split at hlast
    · rename_i hcounts
      have hhorizon : horizon = last.windowEnd - last.retentionDays * day := by
        unfold retentionHorizon at hlast
        split at hlast
        · exact nomatch hlast
        · exact (Option.some.inj hlast).symm
      unfold daysBefore at h
      dsimp only at h
      split at h
      · have hmin : min (now - settings.retentionDays * day) horizon = cutoff :=
          Option.some.inj (Except.ok.inj h)
        refine ⟨by simpa using hhold, by omega, ?_, last, hnewest, hcounts.1, hcounts.2, ?_, ?_⟩
        · exact hmin ▸ min_le_left _ _
        · rw [hlast, hhorizon]
        · rw [← hhorizon, ← hmin]
          exact min_le_right _ _
      · exact nomatch h
    · exact nomatch hlast

/-- On a partitioned table the cutoff is no later. -/
theorem partitionCutoff_some {databaseNow : ℤ}
    (h : partitionCutoff now databaseNow settings checkpoints = .ok (some cutoff)) :
    ∃ reached, retentionCutoff now settings checkpoints = .ok (some reached) ∧ cutoff ≤ reached := by
  unfold partitionCutoff at h
  cases hreached : retentionCutoff now settings checkpoints with
  | error e =>
    rw [hreached] at h
    exact nomatch h
  | ok reached =>
    cases reached with
    | none =>
      rw [hreached] at h
      exact nomatch h
    | some reached =>
      refine ⟨reached, rfl, ?_⟩
      rw [hreached] at h
      unfold daysBefore at h
      simp only [bind, Except.bind] at h
      split at h
      · exact nomatch h
      · rw [← Option.some.inj (Except.ok.inj h)]
        exact min_le_left _ _

/-- **On a plain table the cutoff is the start of a sealed window**, which the cutoff of retention lies in. -/
theorem pruneCutoff_some (h : pruneCutoff now settings log checkpoints = .ok (some cutoff)) :
    ∃ reached, retentionCutoff now settings checkpoints = .ok (some reached)
      ∧ ∃ c ∈ checkpoints.rows, c.windowStart = cutoff ∧ cutoff ≤ reached ∧ reached < c.windowEnd := by
  unfold pruneCutoff at h
  cases hreached : retentionCutoff now settings checkpoints with
  | error e =>
    rw [hreached] at h
    exact nomatch h
  | ok reached =>
    cases reached with
    | none =>
      rw [hreached] at h
      exact nomatch h
    | some reached =>
      rw [hreached] at h
      simp only [bind, Except.bind] at h
      cases hsealed : sealedAt checkpoints reached with
      | none =>
        rw [hsealed] at h
        exact nomatch h
      | some c =>
        rw [hsealed] at h
        obtain ⟨hc, hstart, hend⟩ := Table.mem_select.mp (List.mem_of_head? hsealed)
        dsimp only at h
        split at h
        · exact nomatch h
        · have hcutoff : c.windowStart = cutoff := Option.some.inj (Except.ok.inj h)
          exact ⟨reached, rfl, c, hc, hcutoff, hcutoff ▸ hstart, hend⟩

end Cutoff

end Jasil.Audit
