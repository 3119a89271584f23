import Jasil.Jobs.Calls

/-! # What each call does to the attempt rows
The counterpart of the row steps of the jobs, for `job_attempts`: every call takes each row that is
there to **`Call.onAttempt`** of it, and only a claim appends rows (`run_attempts`). What identifies
the claim a row belongs to is never written again (`onAttempt_same`). -/

namespace Jasil.Jobs

/-- What a settling call makes of one attempt row. -/
def Settle.onAttempt (db : Db) (st : Settle) (gen : ClaimGeneration) (args : SettleArgs)
    (a : JobAttempt) : JobAttempt :=
  let target (owned : Bool) : Prop :=
    finishTarget db.attempts gen.jobId gen.workerId gen.attempt owned = some a.id
  match (db.jobs.get gen.jobId).filter (OwnedClaim gen ·) with
  | some j =>
    match st.verdict args.now j with
    | .exhausted _ => a
    | .write _ outcome _ =>
      if args.recordAttempt = true ∧ target true then
        a.finish outcome (fun _ => args.now) args.durationMs st.error
      else a
  | none =>
    if args.recordAttempt = true ∧ target false then
      let values := finishValues db gen.jobId gen.attempt args.now st.late false
      a.finish values.1 values.2 args.durationMs st.error
    else a

/-- What a call makes of one attempt row. -/
def Call.onAttempt (db : Db) (a : JobAttempt) : Call → JobAttempt
  | .release jobAttempts workerId now recordAttempts =>
    if recordAttempts = true ∧ db.jobs.rowcount (HeldClaim jobAttempts workerId) ≠ 0 ∧
        OpenClaim jobAttempts workerId a then a.close .released now
    else a
  | .settle st gen args => st.onAttempt db gen args a
  | .reclaim now limit scan =>
    if a.finishedAt = none ∧ a.jobId ∈ expiredIds db now limit scan then a.close .leaseExpired now
    else a
  | .close jobAttempts workerId outcome now =>
    if OpenClaim jobAttempts workerId a then a.close outcome now else a
  | .markStarted gen now =>
    if AttemptOf gen.jobId gen.workerId gen.attempt a ∧ a.finishedAt = none then a.start now else a
  | _ => a

/-! ## What stays -/

/-- Two attempt rows opened by the same claim. -/
structure SameAttempt (a a' : JobAttempt) : Prop where
  id : a'.id = a.id
  jobId : a'.jobId = a.jobId
  workerId : a'.workerId = a.workerId
  attempt : a'.attempt = a.attempt
  claimedAt : a'.claimedAt = a.claimedAt

/-- An attempt is the one it is. -/
theorem SameAttempt.rfl {a : JobAttempt} : SameAttempt a a :=
  ⟨.refl _, .refl _, .refl _, .refl _, .refl _⟩

/-- A row written under a guard is of the same claim, whichever the guard says. -/
theorem SameAttempt.ite {p : Prop} [Decidable p] {a a' : JobAttempt} (h : SameAttempt a a') :
    SameAttempt a (if p then a' else a) := by
  split
  · exact h
  · exact .rfl

/-- Closing an attempt leaves which one it is. -/
theorem sameAttempt_close (a : JobAttempt) (outcome : Outcome) (now : Instant) :
    SameAttempt a (a.close outcome now) := ⟨rfl, rfl, rfl, rfl, rfl⟩

/-- So does finishing it. -/
theorem sameAttempt_finish (a : JobAttempt) (outcome : Outcome)
    (finishedAt : Option Instant → Instant) (durationMs : Option ℤ) (error : Option String) :
    SameAttempt a (a.finish outcome finishedAt durationMs error) := ⟨rfl, rfl, rfl, rfl, rfl⟩

/-- **No call moves a row to another claim.** -/
theorem onAttempt_same (db : Db) (c : Call) (a : JobAttempt) : SameAttempt a (c.onAttempt db a) := by
  cases c with
  | release jobAttempts workerId now recordAttempts => exact .ite (sameAttempt_close ..)
  | settle st gen args =>
    simp only [Call.onAttempt, Settle.onAttempt]
    split
    · split
      · exact .rfl
      · exact .ite (sameAttempt_finish ..)
    · exact .ite (sameAttempt_finish ..)
  | reclaim now limit scan => exact .ite (sameAttempt_close ..)
  | close jobAttempts workerId outcome now => exact .ite (sameAttempt_close ..)
  | markStarted gen now => exact .ite ⟨rfl, rfl, rfl, rfl, rfl⟩
  | _ => exact .rfl

/-! ## Row by row -/

/-- What finishing an attempt makes of the rows. -/
theorem attempts_finishAttempt (db : Db) (jobId : JobId) (workerId : WorkerId) (attempt : ℤ)
    (now : Instant) (outcome : Outcome) (durationMs : Option ℤ) (error : Option String)
    (owned : Bool) :
    (finishAttempt db jobId workerId attempt now outcome durationMs error owned).attempts.rows =
      db.attempts.rows.map fun a =>
        if finishTarget db.attempts jobId workerId attempt owned = some a.id then
          a.finish (finishValues db jobId attempt now outcome owned).1
            (finishValues db jobId attempt now outcome owned).2 durationMs error
        else a := by
  rw [finishAttempt]
  split
  case h_1 hnone => simp [hnone]
  case h_2 target hsome =>
    simp only [Table.rows_update, hsome, Option.some.injEq]
    refine List.map_congr_left fun a _ => ?_
    simp only [eq_comm]

/-- What closing the open attempts makes of the rows. -/
theorem attempts_closeOpen (db : Db) (jobAttempts : JobAttempts) (workerId : WorkerId)
    (outcome : Outcome) (now : Instant) :
    (closeOpen db jobAttempts workerId outcome now).2.attempts.rows =
      db.attempts.rows.map fun a =>
        if OpenClaim jobAttempts workerId a then a.close outcome now else a := by
  rw [closeOpen]
  split
  case isTrue h =>
    obtain rfl := List.isEmpty_iff.mp h
    have hno : ∀ a : JobAttempt, ¬ OpenClaim [] workerId a := by
      intro a ha
      cases claimsMatch_iff.mp ha.1
    simp [hno]
  case isFalse => rfl

/-- The attempt row of a claim whose row is written is closed with the outcome of the call. -/
theorem attempts_settleClaim_some {db : Db} {gen : ClaimGeneration} (ho : Owned db gen)
    (args : SettleArgs) (error : Option String) (outcome : Outcome) (row : RowWrite) :
    (settleClaim db gen args error outcome (some row)).2.attempts.rows =
      db.attempts.rows.map fun a =>
        if args.recordAttempt = true ∧
            finishTarget db.attempts gen.jobId gen.workerId gen.attempt true = some a.id then
          a.finish outcome (fun _ => args.now) args.durationMs error
        else a := by
  have howned : (db.jobs.rowcount (OwnedClaim gen) == 1) = true := by
    simpa [settleClaim, ho] using settleClaim_fst db gen args error outcome row
  simp only [settleClaim, howned]
  cases hrec : args.recordAttempt with
  | false => simp
  | true =>
    rw [if_pos rfl, attempts_finishAttempt]
    simp [finishValues]

/-- The attempt row of a claim whose row is not written is settled late. -/
theorem attempts_settleClaim_none (db : Db) (gen : ClaimGeneration) (args : SettleArgs)
    (error : Option String) (outcome : Outcome) :
    (settleClaim db gen args error outcome none).2.attempts.rows =
      db.attempts.rows.map fun a =>
        if args.recordAttempt = true ∧
            finishTarget db.attempts gen.jobId gen.workerId gen.attempt false = some a.id then
          a.finish (finishValues db gen.jobId gen.attempt args.now outcome false).1
            (finishValues db gen.jobId gen.attempt args.now outcome false).2 args.durationMs error
        else a := by
  simp only [settleClaim]
  cases hrec : args.recordAttempt with
  | false => simp
  | true =>
    rw [if_pos rfl, attempts_finishAttempt]
    simp

/-- What a settlement makes of the attempt rows when the claim is owned. -/
theorem Settle.onAttempt_of_owned (st : Settle) {db : Db} {gen : ClaimGeneration}
    (args : SettleArgs) {j : ProcessingJob} (hj : db.jobs.get gen.jobId = some j)
    (ho : OwnedClaim gen j) (a : JobAttempt) :
    st.onAttempt db gen args a =
      match st.verdict args.now j with
      | .exhausted _ => a
      | .write _ outcome _ =>
        if args.recordAttempt = true ∧
            finishTarget db.attempts gen.jobId gen.workerId gen.attempt true = some a.id then
          a.finish outcome (fun _ => args.now) args.durationMs st.error
        else a := by
  have hread : (db.jobs.get gen.jobId).filter (OwnedClaim gen ·) = some j := by
    rw [hj, Option.filter_some, if_pos (decide_eq_true ho)]
  simp only [Settle.onAttempt, hread]

/-- What a settlement makes of the attempt rows when the claim is lost. -/
theorem Settle.onAttempt_of_not_owned (st : Settle) {db : Db} {gen : ClaimGeneration}
    (args : SettleArgs) (ho : ¬ Owned db gen) (a : JobAttempt) :
    st.onAttempt db gen args a =
      if args.recordAttempt = true ∧
          finishTarget db.attempts gen.jobId gen.workerId gen.attempt false = some a.id then
        a.finish (finishValues db gen.jobId gen.attempt args.now st.late false).1
          (finishValues db gen.jobId gen.attempt args.now st.late false).2 args.durationMs st.error
      else a := by
  have hread : (db.jobs.get gen.jobId).filter (OwnedClaim gen ·) = none := by
    rw [Option.filter_eq_none_iff]
    intro j hj
    simpa using fun hown => ho ⟨j, hj, hown⟩
  simp only [Settle.onAttempt, hread]

/-- What a settling call makes of the rows. -/
theorem attempts_settle (db : Db) (st : Settle) (gen : ClaimGeneration) (args : SettleArgs) :
    (st.run db gen args).2.attempts.rows = db.attempts.rows.map (st.onAttempt db gen args) := by
  by_cases ho : Owned db gen
  · obtain ⟨j, hj, hown⟩ := ho
    have hj : db.jobs.get gen.jobId = some j := hj
    rw [st.run_of_owned args hj hown]
    cases hv : st.verdict args.now j with
    | exhausted status =>
      refine ((List.map_congr_left fun a _ => ?_).trans (List.map_id _)).symm
      simp only [st.onAttempt_of_owned args hj hown, hv, id]
    | write status outcome row =>
      simp only [attempts_settleClaim_some ⟨j, hj, hown⟩]
      refine List.map_congr_left fun a _ => ?_
      simp only [st.onAttempt_of_owned args hj hown, hv]
  · rw [st.run_of_not_owned args ho]
    simp only [attempts_settleClaim_none]
    refine List.map_congr_left fun a _ => ?_
    rw [st.onAttempt_of_not_owned args ho]

/-- An id that a pass found is that of a job whose lease expired. -/
theorem mem_expiredIds {db : Db} {now : Instant} {limit : ℕ} {scan : List JobId} {id : JobId}
    (h : id ∈ expiredIds db now limit scan) :
    ∃ j, db.jobs.get id = some j ∧ LeaseExpired now j := by
  have hf := (List.mem_filter.mp (List.mem_of_mem_take h)).2
  obtain ⟨j, hj, he⟩ := of_decide_eq_true hf
  exact ⟨j, hj, he⟩

/-- A job whose lease expired is no longer claimed. -/
theorem status_expire (j : ProcessingJob) (now : Instant) : (j.expire now).status ≠ .claimed := by
  rw [ProcessingJob.expire]
  split <;> rintro ⟨⟩

/-- The open rows of the jobs a reaper selected: none of those is claimed once it has written them. -/
theorem reclaimed_iff {db : Db} {now : Instant} {limit : ℕ} {scan : List JobId}
    {jobs : Table ProcessingJob.id}
    (hget : ∀ id, jobs.get id = (db.jobs.get id).map fun j =>
      if j.id ∈ expiredIds db now limit scan ∧ LeaseExpired now j then j.expire now else j)
    (a : JobAttempt) :
    Reclaimed jobs (expiredIds db now limit scan) a ↔
      a.finishedAt = none ∧ a.jobId ∈ expiredIds db now limit scan := by
  refine and_congr_right fun _ => ?_
  rw [hget]
  constructor
  · rintro ⟨j', hj', hmem, -⟩
    have hid : j'.id = a.jobId := by
      rw [← hget] at hj'
      exact Table.key_of_get hj'
    rwa [hid] at hmem
  · intro hmem
    obtain ⟨j, hj, he⟩ := mem_expiredIds hmem
    have hid := Table.key_of_get hj
    rw [hj]
    refine ⟨j.expire now, ?_, ?_, status_expire j now⟩
    · rw [Option.map_some, if_pos ⟨hid ▸ hmem, he⟩]
      rfl
    · rw [ProcessingJob.expire]
      split <;> exact hid ▸ hmem

/-- What a pass of the reaper makes of the rows. -/
theorem attempts_reclaim (db : Db) (now : Instant) (limit : ℕ) (scan : List JobId) :
    (reclaimExpiredLeases db now limit scan).2.attempts.rows =
      db.attempts.rows.map fun a =>
        if a.finishedAt = none ∧ a.jobId ∈ expiredIds db now limit scan then
          a.close .leaseExpired now
        else a := by
  have hget := get_reclaim db now limit scan
  revert hget
  rw [reclaimExpiredLeases]
  split
  case isTrue h =>
    intro _
    simp [List.isEmpty_iff.mp h]
  case isFalse =>
    intro hget
    refine List.map_congr_left fun a _ => ?_
    simp only [reclaimed_iff hget a]

/-- What a release makes of the rows. -/
theorem attempts_release (db : Db) (jobAttempts : JobAttempts) (workerId : WorkerId)
    (now : Instant) (recordAttempts : Bool) :
    (releaseLeases db jobAttempts workerId now recordAttempts).2.attempts.rows =
      db.attempts.rows.map fun a =>
        if recordAttempts = true ∧ db.jobs.rowcount (HeldClaim jobAttempts workerId) ≠ 0 ∧
            OpenClaim jobAttempts workerId a then
          a.close .released now
        else a := by
  rw [releaseLeases]
  split
  case isTrue h =>
    obtain rfl := List.isEmpty_iff.mp h
    have h0 : db.jobs.rowcount (HeldClaim [] workerId) = 0 := by
      simp [Table.rowcount, not_heldClaim_nil]
    simp [h0]
  case isFalse =>
    dsimp only
    split
    case isTrue hrel =>
      rw [attempts_closeOpen]
      refine List.map_congr_left fun a _ => ?_
      simp only [hrel.1, hrel.2, true_and, not_false_eq_true, ne_eq]
    case isFalse hrel =>
      refine ((List.map_congr_left fun a _ => ?_).trans (List.map_id' _)).symm
      exact if_neg fun h => hrel ⟨h.1, h.2.1⟩

/-- A claim rewrites no row and only appends. -/
theorem attempts_claimUpdate (db : Db) (r : ClaimRequest) (jobIds : List JobId)
    (mint : JobId → AttemptId) :
    ∃ rows, (claimUpdate db r jobIds mint).attempts.rows = db.attempts.rows ++ rows := by
  rw [claimUpdate]
  split
  · exact Table.rows_insertAll _ _
  · exact ⟨[], by simp⟩

/-- Whether the call claims jobs. -/
def Call.isClaim : Call → Bool
  | .claim .. | .claimSelected .. => true
  | _ => false

/-- **A call that claims nothing takes each row to `onAttempt` of it and adds none.** -/
theorem run_attempts {c : Call} (hc : c.isClaim = false) (db : Db) :
    (c.run db).attempts.rows = db.attempts.rows.map (c.onAttempt db ·) := by
  have hkeep : db.attempts.rows = db.attempts.rows.map fun a => a := (List.map_id' _).symm
  cases c with
  | insert event subscriberId queue maxAttempts now availableAt jobId =>
    rw [Call.run]
    split
    case h_1 id' db' h => rcases insertJob_ok h with rfl | rfl <;> exact hkeep
    case h_2 => exact hkeep
  | claim r mint => cases hc
  | claimSelected r jobIds mint => cases hc
  | renew jobAttempts workerId leaseSeconds now =>
    simp only [Call.run, renewLeases]
    split <;> exact hkeep
  | release jobAttempts workerId now recordAttempts =>
    exact attempts_release db jobAttempts workerId now recordAttempts
  | settle st gen args => exact attempts_settle db st gen args
  | reclaim now limit scan => exact attempts_reclaim db now limit scan
  | replay jobId now => exact hkeep
  | close jobAttempts workerId outcome now =>
    exact attempts_closeOpen db jobAttempts workerId outcome now
  | markStarted gen now => rfl
  | claimCallbacks r =>
    simp only [Call.run, claimDeadLetterCallbacks]
    split <;> exact hkeep
  | markNotified claim now => exact hkeep
  | deferCallback claim retryAt error => exact hkeep
  | releaseCallback claim => exact hkeep

/-! ## The rows a claim opens -/

/-- The ids `mint` gives are new to the table and differ from job to job. -/
def FreshIds (db : Db) (mint : JobId → AttemptId) : Prop :=
  (db.jobs.rows.map fun j => mint j.id).Nodup ∧ ∀ j ∈ db.jobs.rows, db.attempts.get (mint j.id) = none

instance (db : Db) (mint : JobId → AttemptId) : Decidable (FreshIds db mint) :=
  inferInstanceAs (Decidable (_ ∧ ∀ _ ∈ _, _))

/-- No row among `jobIds` is under a claim of the worker. -/
def HoldsNone (db : Db) (jobIds : List JobId) (workerId : WorkerId) : Prop :=
  ∀ j ∈ db.jobs.rows, ¬ ClaimedBy jobIds workerId j

instance (db : Db) (jobIds : List JobId) (workerId : WorkerId) :
    Decidable (HoldsNone db jobIds workerId) :=
  inferInstanceAs (Decidable (∀ _ ∈ _, _))

section Opened

variable {db : Db} {r : ClaimRequest} {jobIds : List JobId} {mint : JobId → AttemptId}
  (hrec : r.recordAttempts = true) (hfresh : FreshIds db mint) (hnone : HoldsNone db jobIds r.workerId)
include hrec hfresh

/-- The rows a claim opens: one for each job of the batch that is now under a claim of the worker. -/
theorem attempts_claimUpdate_of_fresh :
    (claimUpdate db r jobIds mint).attempts.rows =
      db.attempts.rows ++ ((claimUpdate db r jobIds mint).jobs.select
        (ClaimedBy jobIds r.workerId)).map (openAttempt r.workerId r.now mint) := by
  set jobs := db.jobs.update (Takes jobIds) (ProcessingJob.claim r) (ProcessingJob.id_claim r)
    with hjobs
  have hrun : claimUpdate db r jobIds mint =
      openAttempts { db with jobs := jobs } jobIds r.workerId r.now mint := by
    rw [claimUpdate, if_pos hrec]
  have hids : jobs.rows.map (fun j => mint j.id) = db.jobs.rows.map fun j => mint j.id := by
    rw [hjobs, Table.rows_update, List.map_map]
    refine List.map_congr_left fun j _ => ?_
    simp only [Function.comp_apply]
    split <;> rfl
  rw [hrun]
  refine Table.rows_insertAll_of_new ?_ ?_
  · rw [List.map_map]
    have hnd : (jobs.rows.map fun j => mint j.id).Nodup := by
      rw [hids]
      exact hfresh.1
    exact hnd.sublist (List.filter_sublist.map _)
  · intro a ha
    obtain ⟨j, hj, rfl⟩ := List.mem_map.mp ha
    have hm : mint j.id ∈ db.jobs.rows.map fun j => mint j.id := by
      rw [← hids]
      exact List.mem_map.mpr ⟨j, (Table.mem_select.mp hj).1, rfl⟩
    obtain ⟨j₀, hj₀, he⟩ := List.mem_map.mp hm
    rw [openAttempt, ← he]
    exact hfresh.2 j₀ hj₀

include hnone

/-- **A claim opens exactly one row for each job it takes, and none for any other.** -/
theorem added_claimUpdate (id : JobId) :
    (Table.added db.attempts (claimUpdate db r jobIds mint).attempts).filter (·.jobId = id) =
      (((db.jobs.get id).filter (Takes jobIds ·)).map fun j =>
        openAttempt r.workerId r.now mint (j.claim r)).toList := by
  rw [Table.added, attempts_claimUpdate_of_fresh hrec hfresh, List.drop_left, List.filter_map,
    Table.select, List.filter_filter]
  have hswap : ((claimUpdate db r jobIds mint).jobs.rows.filter fun j =>
      ((fun a : JobAttempt => decide (a.jobId = id)) ∘ openAttempt r.workerId r.now mint) j &&
        decide (ClaimedBy jobIds r.workerId j)) =
      ((claimUpdate db r jobIds mint).jobs.rows.filter fun j => j.id = id).filter
        fun j => ClaimedBy jobIds r.workerId j := by
    rw [List.filter_filter]
    refine List.filter_congr fun j _ => ?_
    rw [Bool.and_comm]
    rfl
  rw [hswap, Table.filter_key, get_claimUpdate]
  cases hj : db.jobs.get id with
  | none => rfl
  | some j =>
    by_cases ht : Takes jobIds j
    · have hcl : ClaimedBy jobIds r.workerId (j.claim r) := ⟨ht.1, rfl, rfl⟩
      simp [Option.filter_some, ht, hcl]
    · have hcl : ¬ ClaimedBy jobIds r.workerId j := hnone j (Table.mem_of_get hj)
      simp [Option.filter_some, ht, hcl]

end Opened

end Jasil.Jobs
