import Mathlib.Data.String.Basic
import Jasil.Audit.Query
import Jasil.Jobs.WorkerRegistry

/-! # The listings lose and repeat nothing
Following `next_cursor` through `list_entries`, `get_worker_attempts` and `get_workers_summary`. -/

namespace Jasil

open Keyset Jobs Audit

variable {κ : Type*} [LinearOrder κ]

/-- The rows that a clause selects have distinct sort keys when the table tells its rows apart by them. -/
theorem nodup_select {ρ ι : Type*} {key : ρ → ι} (t : Table key) (p : ρ → Prop) [DecidablePred p]
    (moment : ρ → Instant) (identifier : ρ → String)
    (hkey : ∀ r s, moment r = moment s → identifier r = identifier s → key r = key s) :
    ((t.select p).map fun r => (moment r, identifier r)).Nodup := by
  have hrows : ((t.select p).map key).Nodup := t.nodup.sublist (List.filter_sublist.map key)
  rw [List.Nodup, List.pairwise_map] at hrows ⊢
  refine hrows.imp fun h heq => h ?_
  obtain ⟨hm, hi⟩ := Prod.mk.inj heq
  exact hkey _ _ hm hi

/-- **Following the cursors loses and repeats nothing**, with ids compared in any total order: of the
entries of a time range, of the attempts of a worker instance, and of the workers. Rows may be inserted
between two reads, and changed, as long as the rows that match keep their sort keys. -/
theorem listings_complete (collate : String ↪ κ) :
    (∀ (log : ℕ → Table AuditLog.key) (now : ℕ → Instant) (filters : AuditFilters)
        (fromTs toTs : Instant) (limit : ℤ),
      filters.fromTs = some fromTs → filters.toTs = some toTs → fromTs ≤ toTs →
      toTs - fromTs ≤ maxWindow → 1 ≤ limit → limit ≤ maxPageSize →
      (∀ k, ∀ r ∈ (log k).rows, Representable r.occurredAt ∧ Identifier r.id) →
      (∀ k, ∀ r ∈ (log k).select (filters.Matches fromTs toTs),
        ∃ r' ∈ (log (k + 1)).select (filters.Matches fromTs toTs),
          r'.occurredAt = r.occurredAt ∧ r'.id = r.id) →
      Complete (listingKey collate AuditLog.occurredAt AuditLog.id)
        (fun k cursor => listEntries collate (log k) (now k) filters cursor limit)
        fun k => (log k).select (filters.Matches fromTs toTs))
    ∧ (∀ (attempts : ℕ → Table JobAttempt.id) (instanceId : WorkerId) (limit : ℤ)
        (recordAttempts : Bool),
      1 ≤ limit → limit ≤ maxWorkerAttemptPageSize →
      (∀ k, ∀ a ∈ (attempts k).rows, Representable a.claimedAt ∧ Identifier a.id) →
      (∀ k, ∀ a ∈ (attempts k).select (fun a => a.workerId = instanceId),
        ∃ a' ∈ (attempts (k + 1)).select (fun a => a.workerId = instanceId),
          a'.claimedAt = a.claimedAt ∧ a'.id = a.id) →
      Complete (listingKey collate JobAttempt.claimedAt JobAttempt.id)
        (fun k cursor => (getWorkerAttempts collate (attempts k) instanceId limit cursor
          recordAttempts).map WorkerAttempts.page)
        fun k => (attempts k).select fun a => a.workerId = instanceId)
    ∧ ∀ (workers : ℕ → Table JobWorker.instanceId) (db : ℕ → Db) (now : ℕ → Instant)
        (staleAfterSeconds : ℚ) (limit hours : ℤ) (recordAttempts : Bool),
      0 < staleAfterSeconds ∧ staleAfterSeconds ≤ maxJobSeconds →
      1 ≤ limit → limit ≤ maxWorkerPageSize →
      (∀ k, ∀ w ∈ (workers k).rows, Representable w.startedAt ∧ Identifier w.instanceId) →
      (∀ k, ∀ w ∈ (workers k).rows, ∃ w' ∈ (workers (k + 1)).rows,
        w'.startedAt = w.startedAt ∧ w'.instanceId = w.instanceId) →
      Complete (listingKey collate JobWorker.startedAt JobWorker.instanceId)
        (fun k cursor => (getWorkersSummary collate (workers k) (db k) (now k) staleAfterSeconds
          limit cursor hours recordAttempts).map WorkersSummary.page)
        fun k => (workers k).rows := by
  refine ⟨?_, ?_, ?_⟩
  · intro log now filters fromTs toTs limit hfrom hto hle hwindow h1 hmax hvalid hkept
    simp only [listEntries_eq collate (log _) (now _) hfrom hto hle hwindow _ h1 hmax]
    refine (listing_readPage "audit" (by omega) (fun k r hr => hvalid k r ?_) ?_ hkept).complete
    · exact (Table.mem_select.mp hr).1
    · -- the key of the log's table is the pair of instant and id
      exact fun k => nodup_select (log k) _ _ _ fun r s hm hi => Prod.ext hi hm
  · intro attempts instanceId limit recordAttempts h1 hmax hvalid hkept
    simp only [getWorkerAttempts_page collate (attempts _) instanceId _ recordAttempts h1 hmax]
    refine (listing_readPage "worker attempts" (by omega) (fun k a ha => hvalid k a ?_) ?_
      hkept).complete
    · exact (Table.mem_select.mp ha).1
    · exact fun k => nodup_select (attempts k) _ _ _ fun _ _ _ hi => hi
  · intro workers db now staleAfterSeconds limit hours recordAttempts hstale h1 hmax hvalid hkept
    simp only [getWorkersSummary_page collate (workers _) (db _) (now _) _ hours recordAttempts
      hstale h1 hmax]
    refine (listing_readPage "worker summary" (by omega) hvalid (fun k => ?_) hkept).complete
    have hall := nodup_select (workers k) (fun _ => True) JobWorker.startedAt JobWorker.instanceId
      fun _ _ _ hi => hi
    simpa [Table.select] using hall

/-- Two entries of the same instant. -/
def tiedLog : Table AuditLog.key where
  rows :=
    let entry (id : String) : AuditLog :=
      { id, occurredAt := 1, actionId := "auth.session.create", category := "auth", severity := "info",
        outcome := "success", actorType := "user", actorId := none, credentialType := none,
        credentialId := none, onBehalfOfId := none, targetType := none, targetId := none,
        targetOwnerId := none, requestId := none, eventId := none, source := "api",
        ipAddress := none, userAgent := none, details := .null, detailsVersion := 1,
        instanceId := none, appName := none, appVersion := none }
    [entry "a", entry "b"]
  nodup := by decide

/-- One entry a page, so that the tie is on the boundary between two pages. -/
theorem listings_complete_tie :
    Complete (listingKey (Function.Embedding.refl String) AuditLog.occurredAt AuditLog.id)
      (fun _ cursor => listEntries (Function.Embedding.refl String) tiedLog 9
        { fromTs := some 0, toTs := some 2 } cursor 1)
      fun _ => tiedLog.select
        (AuditFilters.Matches { fromTs := some 0, toTs := some 2 } 0 2) := by
  refine (listings_complete (Function.Embedding.refl String)).1 (fun _ => tiedLog) (fun _ => 9)
    { fromTs := some 0, toTs := some 2 } 0 2 1 rfl rfl (by decide) (by decide) (by decide)
    (by decide) ?_ ?_
  · intro _ r hr
    simp only [tiedLog, List.mem_cons, List.not_mem_nil, or_false] at hr
    rcases hr with rfl | rfl <;> exact ⟨by decide, by decide⟩
  · exact fun _ r hr => ⟨r, hr, rfl, rfl⟩

end Jasil
