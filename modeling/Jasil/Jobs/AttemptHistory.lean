import Jasil.Jobs.AttemptRows
import Jasil.Jobs.Fencing

/-! # The attempt history
Which attempt row belongs to which claim, over whole runs. Rows are matched by job, worker and
attempt number, which is no key: a release gives a number back and a replay starts them again. The
record of claims says which row each claim opened (`OpenedBy`), and what holds in every state of a
run that records its attempts is **`History`**:

* every claim opened one row, and every row was opened by one claim;
* along the claims one worker took of a job, the clock it read grows;
* an open row is that of the live claim, and the row of the live claim is open or `abandoned`.

A worker's clock has to go forward between its own claims, since `_finish_attempt` takes the newest
of several rows with the same numbers to be the one it settles. -/

namespace Jasil.Jobs

/-! ## Runs that record their attempts -/

/-- The clock the worker claims with is past its reading at each of its earlier claims. -/
def Fenced.ClockPast (s : Fenced) (r : ClaimRequest) : Prop :=
  ∀ j ∈ s.db.jobs.rows, ∀ g ∈ (s.claims j.id).grants,
    g.holder.lockedBy = some r.workerId → ∀ t ∈ g.holder.lockedAt, t < r.now

instance (s : Fenced) (r : ClaimRequest) : Decidable (s.ClockPast r) :=
  inferInstanceAs (Decidable (∀ _ ∈ _, ∀ _ ∈ _, _ → ∀ _ ∈ _, _))

/-- The process the call comes from records its attempts. The one close that is a call of its own
is that of an abandonment. -/
def Call.Recording : Call → Prop
  | .claim r _ | .claimSelected r _ _ => r.recordAttempts = true
  | .release _ _ _ recordAttempts => recordAttempts = true
  | .settle _ _ args => args.recordAttempt = true
  | .close _ _ outcome _ => outcome = .abandoned
  | _ => True

instance (c : Call) : Decidable c.Recording := by
  cases c <;> simp only [Call.Recording] <;> infer_instance

/-- **The call records its attempts.** A claim does so with fresh row ids, on a clock that went
forward; when its ids were selected earlier, none of their rows is one the worker holds. An
abandonment may name anything, at any time. -/
def Fenced.Records (s : Fenced) (c : Call) : Prop :=
  c.Recording ∧
    match c with
    | .claim r mint => FreshIds s.db mint ∧ s.ClockPast r
    | .claimSelected r jobIds mint =>
      FreshIds s.db mint ∧ s.ClockPast r ∧ HoldsNone s.db jobIds r.workerId
    | _ => True

instance (s : Fenced) (c : Call) : Decidable (s.Records c) := by
  cases c <;> simp only [Fenced.Records] <;> infer_instance

/-- The call is made for claims its worker may name, and records its attempts. -/
def Fenced.MayRecord (s : Fenced) (a : Issued) : Prop := s.MayIssue a ∧ s.Records a.call

instance (s : Fenced) (a : Issued) : Decidable (s.MayRecord a) :=
  inferInstanceAs (Decidable (_ ∧ _))

/-! ## The invariant -/

/-- **The row `a` is the one that claim `g` of the job opened.** -/
structure OpenedBy (attempts : Table JobAttempt.id) (id : JobId) (g : Grant Claimant)
    (a : JobAttempt) : Prop where
  row : attempts.get a.id = some a
  opened : g.holder.opened = [a.id]
  jobId : a.jobId = id
  worker : g.holder.lockedBy = some a.workerId
  attempt : a.attempt = g.token
  claimedAt : g.holder.lockedAt = some a.claimedAt

/-- **The attempt rows tell the history of the claims.** -/
structure History (s : Recorded) : Prop where
  opened : ∀ id, ∀ g ∈ (s.claims id).grants, ∃ a, OpenedBy s.db.attempts id g a
  source : ∀ a ∈ s.db.attempts.rows, ∃ g ∈ (s.claims a.jobId).grants,
    OpenedBy s.db.attempts a.jobId g a
  clock : ∀ id, ∀ g ∈ (s.claims id).grants, ∀ g' ∈ (s.claims id).grants, g.serial < g'.serial →
    g.holder.lockedBy = g'.holder.lockedBy →
      ∀ t ∈ g.holder.lockedAt, ∀ t' ∈ g'.holder.lockedAt, t < t'
  openLive : ∀ a ∈ s.db.attempts.rows, a.finishedAt = none →
    ∃ j, s.db.jobs.get a.jobId = some j ∧ j.status = .claimed ∧
      ∃ l, (s.claims a.jobId).last? = some l ∧ OpenedBy s.db.attempts a.jobId l a
  liveOpen : ∀ id j l a, s.db.jobs.get id = some j → j.status = .claimed →
    (s.claims id).last? = some l → OpenedBy s.db.attempts id l a → a.finishedAt ≠ none →
      a.outcome = some .abandoned

/-- The claim a row belongs to determines the row. -/
theorem OpenedBy.row_eq {attempts : Table JobAttempt.id} {id : JobId} {g : Grant Claimant}
    {a a' : JobAttempt} (h : OpenedBy attempts id g a) (h' : OpenedBy attempts id g a') : a = a' := by
  have hid : a.id = a'.id := List.singleton_inj.mp (h.opened.symm.trans h'.opened)
  have hrow := h.row
  rw [hid, h'.row] at hrow
  exact (Option.some.inj hrow).symm

/-- The row of a claim determines the claim: its worker's clock grew from one claim to the next. -/
theorem History.grant_eq {s : Recorded} (h : History s) {id : JobId}
    (hnum : (s.claims id).Numbered) {g g' : Grant Claimant} (hg : g ∈ (s.claims id).grants)
    (hg' : g' ∈ (s.claims id).grants) {a : JobAttempt} (ha : OpenedBy s.db.attempts id g a)
    (ha' : OpenedBy s.db.attempts id g' a) : g = g' := by
  have hworker : g.holder.lockedBy = g'.holder.lockedBy := ha.worker.trans ha'.worker.symm
  rcases Nat.lt_trichotomy g.serial g'.serial with hlt | heq | hlt
  · exact absurd (h.clock id g hg g' hg' hlt hworker _ ha.claimedAt _ ha'.claimedAt) (lt_irrefl _)
  · exact hnum.eq_of_serial hg hg' heq
  · exact absurd (h.clock id g' hg' g hg hlt hworker.symm _ ha'.claimedAt _ ha.claimedAt)
      (lt_irrefl _)

/-- A fresh installation has no history. -/
theorem history_init : History Recorded.init where
  opened _ _ hg := nomatch hg
  source _ ha := nomatch ha
  clock _ _ hg := nomatch hg
  openLive _ ha := nomatch ha
  liveOpen id _ _ _ hj := nomatch (Recorded.get_init id).symm.trans hj

/-! ## A claim -/

/-- A call that leaves the tables as they are leaves the record as it is. -/
theorem Recorded.after_eq_self {s : Recorded} {c : Call} (h : c.run s.db = s.db) :
    s.after c = s := by
  have hclaims (id : JobId) : (s.after c).claims id = s.claims id := by
    simp only [Recorded.after, h]
    cases s.db.jobs.get id with
    | none => rfl
    | some j => exact observeRow_of_status rfl
  have hdb : (s.after c).db = s.db := h
  calc s.after c = ⟨(s.after c).db, (s.after c).claims⟩ := rfl
    _ = ⟨s.db, s.claims⟩ := by rw [hdb, funext hclaims]
    _ = s := rfl

section Claim

variable {s : Recorded} {c : Call} {r : ClaimRequest} {jobIds : List JobId}
  {mint : JobId → AttemptId} (hrun : c.run s.db = claimUpdate s.db r jobIds mint)
  (hrec : r.recordAttempts = true) (hfresh : FreshIds s.db mint) (hnone : HoldsNone s.db jobIds r.workerId)
include hrun

/-- What the onlooker writes down of a job that a claim takes. -/
theorem claims_of_takes {id : JobId} {j : ProcessingJob} (hj : s.db.jobs.get id = some j)
    (ht : Takes jobIds j) :
    (s.after c).claims id = (s.claims id).issue (j.attempts + 1)
      ⟨some r.workerId, some r.now, openedRows s.db (c.run s.db) id⟩ := by
  simp only [Recorded.after]
  rw [hrun, get_claimUpdate, hj, Option.map_some, if_pos ht]
  simp only [observeRow, ht.2]
  rfl

include hrec hfresh hnone

/-- The row a claim opens for a job it takes. -/
theorem openedRows_of_takes {id : JobId} {j : ProcessingJob} (hj : s.db.jobs.get id = some j)
    (ht : Takes jobIds j) : openedRows s.db (c.run s.db) id = [mint id] := by
  rw [openedRows, hrun, added_claimUpdate hrec hfresh hnone, hj, Option.filter_some,
    if_pos (decide_eq_true ht)]
  simp [openAttempt, Table.key_of_get hj]

omit hrec hfresh hnone in
/-- A job that a claim does not take keeps its record. -/
theorem claims_of_not_takes {id : JobId} (h : ∀ j, s.db.jobs.get id = some j → ¬ Takes jobIds j) :
    (s.after c).claims id = s.claims id := by
  simp only [Recorded.after]
  cases hj : s.db.jobs.get id with
  | none => rfl
  | some j =>
    rw [hrun, get_claimUpdate, hj, Option.map_some, if_neg (h j hj)]
    exact observeRow_of_status rfl

/-- The row a claim opened for a job it took is in the table. -/
theorem get_opened {id : JobId} {j : ProcessingJob} (hj : s.db.jobs.get id = some j)
    (ht : Takes jobIds j) :
    (s.after c).db.attempts.get (mint id) =
      some (openAttempt r.workerId r.now mint (j.claim r)) := by
  have hid := Table.key_of_get hj
  have hadded := added_claimUpdate hrec hfresh hnone id
  rw [hj, Option.filter_some, if_pos (decide_eq_true ht)] at hadded
  have hm : openAttempt r.workerId r.now mint (j.claim r) ∈
      Table.added s.db.attempts (claimUpdate s.db r jobIds mint).attempts := by
    refine List.mem_of_mem_filter (p := fun a : JobAttempt => a.jobId = id) ?_
    rw [hadded]
    exact List.mem_singleton_self _
  have hrow : openAttempt r.workerId r.now mint (j.claim r) ∈ (s.after c).db.attempts.rows := by
    simp only [Recorded.after, hrun]
    exact List.mem_of_mem_drop hm
  have hkey : (openAttempt r.workerId r.now mint (j.claim r)).id = mint id := congrArg mint hid
  rw [← hkey]
  exact Table.get_key hrow

/-- A row found after a claim was there before, or is the one opened for a job the claim took. -/
theorem row_of_claim {a : JobAttempt} (ha : a ∈ (s.after c).db.attempts.rows) :
    a ∈ s.db.attempts.rows ∨ ∃ j, s.db.jobs.get a.jobId = some j ∧ Takes jobIds j ∧
      a = openAttempt r.workerId r.now mint (j.claim r) := by
  have hrows := @attempts_claimUpdate_of_fresh s.db r jobIds mint hrec hfresh
  simp only [Recorded.after, hrun] at ha
  rw [hrows] at ha
  rcases List.mem_append.mp ha with hold | hnew
  · exact Or.inl hold
  · right
    have hm : a ∈ (Table.added s.db.attempts (claimUpdate s.db r jobIds mint).attempts).filter
        (·.jobId = a.jobId) := by
      refine List.mem_filter.mpr ⟨?_, decide_eq_true rfl⟩
      rw [Table.added, hrows, List.drop_left]
      exact hnew
    rw [added_claimUpdate hrec hfresh hnone] at hm
    obtain ⟨j, hj, rfl⟩ := Option.map_eq_some_iff.mp (Option.mem_toList.mp hm)
    obtain ⟨hj, ht⟩ := Option.filter_eq_some_iff.mp hj
    exact ⟨j, hj, of_decide_eq_true ht, rfl⟩

/-- The row a claim opened belongs to it. -/
theorem openedBy_of_takes {id : JobId} {j : ProcessingJob} (hj : s.db.jobs.get id = some j)
    (ht : Takes jobIds j) {g : Grant Claimant} (htok : g.token = j.attempts + 1)
    (hholder : g.holder = ⟨some r.workerId, some r.now, [mint id]⟩) :
    OpenedBy (s.after c).db.attempts id g (openAttempt r.workerId r.now mint (j.claim r)) := by
  have hid := Table.key_of_get hj
  have hkey : (openAttempt r.workerId r.now mint (j.claim r)).id = mint id := congrArg mint hid
  refine ⟨?_, ?_, hid, ?_, htok.symm, ?_⟩
  · rw [hkey]
    exact get_opened hrun hrec hfresh hnone hj ht
  · rw [hkey, hholder]
  · rw [hholder]
    rfl
  · rw [hholder]
    rfl

omit hrec hfresh hnone in
/-- A row that was there stays, and stays with its claim. -/
theorem OpenedBy.claim {id : JobId} {g : Grant Claimant} {a : JobAttempt}
    (ha : OpenedBy s.db.attempts id g a) : OpenedBy (s.after c).db.attempts id g a := by
  obtain ⟨rows, hrows⟩ := attempts_claimUpdate s.db r jobIds mint
  have hrow := Table.get_of_append hrows ha.row
  rw [← hrun] at hrow
  exact { ha with row := hrow }

/-- **A claim keeps the history.** -/
theorem History.claim (h : History s) (hnum : ∀ id, (s.claims id).Numbered)
    (hclock : ∀ id, ∀ g ∈ (s.claims id).grants, g.holder.lockedBy = some r.workerId →
      ∀ t ∈ g.holder.lockedAt, t < r.now) : History (s.after c) := by
  have hkeep {id : JobId} {g : Grant Claimant} {a : JobAttempt}
      (ha : OpenedBy s.db.attempts id g a) : OpenedBy (s.after c).db.attempts id g a :=
    ha.claim hrun
  -- the row of a job that is taken, and its claim
  have hnew {id : JobId} {j : ProcessingJob} (hj : s.db.jobs.get id = some j)
      (ht : Takes jobIds j) (k : ℕ) (e : ℕ) :
      OpenedBy (s.after c).db.attempts id
        ⟨k, e, j.attempts + 1, false, ⟨some r.workerId, some r.now, [mint id]⟩⟩
        (openAttempt r.workerId r.now mint (j.claim r)) :=
    openedBy_of_takes hrun hrec hfresh hnone hj ht rfl rfl
  have hcases (id : JobId) :
      (∃ j, s.db.jobs.get id = some j ∧ Takes jobIds j) ∨
        ∀ j, s.db.jobs.get id = some j → ¬ Takes jobIds j := by
    by_cases hex : ∃ j, s.db.jobs.get id = some j ∧ Takes jobIds j
    · exact Or.inl hex
    · exact Or.inr fun j hj ht => hex ⟨j, hj, ht⟩
  -- a claimed job is not taken, and its row stays
  have hstay {id : JobId} {j : ProcessingJob} (hj : s.db.jobs.get id = some j)
      (hs : j.status = .claimed) : (∀ j', s.db.jobs.get id = some j' → ¬ Takes jobIds j') ∧
        (s.after c).db.jobs.get id = some j := by
    have hno : ¬ Takes jobIds j := fun ht => nomatch hs.symm.trans ht.2
    refine ⟨fun j' hj' => ?_, ?_⟩
    · obtain rfl := Option.some.inj (hj.symm.trans hj')
      exact hno
    · simp only [Recorded.after, hrun]
      rw [get_claimUpdate, hj, Option.map_some, if_neg hno]
  refine ⟨?_, ?_, ?_, ?_, ?_⟩
  · intro id g hg
    rcases hcases id with ⟨j, hj, ht⟩ | hno
    · rw [claims_of_takes hrun hj ht,
        openedRows_of_takes hrun hrec hfresh hnone hj ht] at hg
      rcases GrantLog.mem_issue.mp hg with hg | rfl
      · obtain ⟨a, ha⟩ := h.opened id g hg
        exact ⟨a, hkeep ha⟩
      · exact ⟨_, hnew hj ht _ _⟩
    · rw [claims_of_not_takes hrun hno] at hg
      obtain ⟨a, ha⟩ := h.opened id g hg
      exact ⟨a, hkeep ha⟩
  · intro a ha
    rcases row_of_claim hrun hrec hfresh hnone ha with hold | ⟨j, hj, ht, he⟩
    · obtain ⟨g, hg, hopened⟩ := h.source a hold
      refine ⟨g, ?_, hkeep hopened⟩
      rcases hcases a.jobId with ⟨j, hj, ht⟩ | hno
      · rw [claims_of_takes hrun hj ht,
        openedRows_of_takes hrun hrec hfresh hnone hj ht]
        exact GrantLog.mem_issue.mpr (Or.inl hg)
      · rwa [claims_of_not_takes hrun hno]
    · rw [claims_of_takes hrun hj ht,
        openedRows_of_takes hrun hrec hfresh hnone hj ht]
      refine ⟨_, GrantLog.mem_issue.mpr (Or.inr rfl), ?_⟩
      have hrow := hnew hj ht (s.claims a.jobId).grants.length (s.claims a.jobId).epoch
      rwa [← he] at hrow
  · intro id g hg g' hg' hlt hworker t htg t' htg'
    rcases hcases id with ⟨j, hj, ht⟩ | hno
    · rw [claims_of_takes hrun hj ht,
        openedRows_of_takes hrun hrec hfresh hnone hj ht] at hg hg'
      rcases GrantLog.mem_issue.mp hg with hg | rfl
      · -- the newer claim is one of before, or this one
        rcases GrantLog.mem_issue.mp hg' with hg' | rfl
        · exact h.clock id g hg g' hg' hlt hworker t htg t' htg'
        · obtain rfl := Option.some.inj htg'
          exact hclock id g hg hworker t htg
      · rcases GrantLog.mem_issue.mp hg' with hg' | rfl
        · exact absurd ((hnum id).serial_lt hg') (not_lt.mpr hlt.le)
        · exact absurd hlt (lt_irrefl _)
    · rw [claims_of_not_takes hrun hno] at hg hg'
      exact h.clock id g hg g' hg' hlt hworker t htg t' htg'
  · intro a ha hopen
    rcases row_of_claim hrun hrec hfresh hnone ha with hold | ⟨j, hj, ht, he⟩
    · -- the row was open before, so its job was claimed and is not taken now
      obtain ⟨j, hj, hs, l, hl, hopened⟩ := h.openLive a hold hopen
      obtain ⟨hno, hj'⟩ := hstay hj hs
      refine ⟨j, hj', hs, l, ?_, hkeep hopened⟩
      rwa [claims_of_not_takes hrun hno]
    · -- the row is the one that this claim opened
      have hrow := hnew hj ht (s.claims a.jobId).grants.length (s.claims a.jobId).epoch
      rw [← he] at hrow
      refine ⟨j.claim r, ?_, rfl, _, ?_, hrow⟩
      · simp only [Recorded.after, hrun]
        rw [get_claimUpdate, hj, Option.map_some, if_pos ht]
      · rw [claims_of_takes hrun hj ht,
          openedRows_of_takes hrun hrec hfresh hnone hj ht, GrantLog.last?_issue]
  · intro id j' l a hj' hs' hl ha hend
    rcases hcases id with ⟨j, hj, ht⟩ | hno
    · -- the row a claim opens is open
      rw [claims_of_takes hrun hj ht,
          openedRows_of_takes hrun hrec hfresh hnone hj ht, GrantLog.last?_issue] at hl
      obtain rfl := Option.some.inj hl
      exact absurd (congrArg JobAttempt.finishedAt (ha.row_eq (hnew hj ht _ _))) hend
    · rw [claims_of_not_takes hrun hno] at hl
      have hj : s.db.jobs.get id = some j' := by
        simp only [Recorded.after, hrun] at hj'
        rw [get_claimUpdate] at hj'
        obtain ⟨j, hj, he⟩ := Option.map_eq_some_iff.mp hj'
        rw [if_neg (hno j hj)] at he
        exact he ▸ hj
      obtain ⟨a₀, ha₀⟩ := h.opened id l (GrantLog.last?_mem hl)
      obtain rfl := ha.row_eq (hkeep ha₀)
      exact h.liveOpen id j' l a hj hs' hl ha₀ hend

end Claim

/-! ## Every other call -/

/-- Only a claim puts a row under a claim. -/
theorem RowStep.isClaim {c : Call} {j j' : ProcessingJob} (h : RowStep c j j')
    (hs : j.status ≠ .claimed) (hs' : j'.status = .claimed) : c.isClaim = true := by
  cases h with
  | claim _ | claimSelected _ => rfl
  | keep => exact absurd hs' hs
  | settle ho _ => exact absurd ho.2.1 hs
  | claimCallback _ | notified _ | deferCallback _ | releaseCallback _ => exact absurd hs' hs
  | renew hh => exact absurd hh.2.1 hs
  | release _ | expireLast _ _ | expireRequeue _ _ | replay _ => exact nomatch hs'

section Other

variable {s : Recorded} {c : Call} (hc : c.isClaim = false)
include hc

/-- The record shows the claims it showed before, given back or not. -/
theorem ident_after (id : JobId) : ((s.after c).claims id).grants.map Grant.ident =
    (s.claims id).grants.map Grant.ident := by
  simp only [Recorded.after]
  cases hj : s.db.jobs.get id with
  | none => rfl
  | some j =>
    obtain ⟨j', hj', hrow⟩ := run_get_some c hj
    rw [hj']
    simp only [observeRow]
    split
    case h_1 hs hs' =>
      have hclaim := hrow.isClaim (by rw [hs]; rintro ⟨⟩) hs'
      rw [hc] at hclaim
      cases hclaim
    case h_2 => rfl
    case h_3 =>
      split
      · exact GrantLog.map_ident_revoke _ _
      · rfl
    case h_4 => rfl

/-- Where a row of the attempts is after the call. -/
theorem get_after {aid : AttemptId} {a : JobAttempt} (ha : s.db.attempts.get aid = some a) :
    (s.after c).db.attempts.get aid = some (c.onAttempt s.db a) := by
  refine Table.get_eq_some_iff.mpr ⟨?_, ?_⟩
  · rw [Recorded.after, run_attempts hc]
    exact List.mem_map_of_mem (Table.mem_of_get ha)
  · rw [(onAttempt_same s.db c a).id]
    exact Table.key_of_get ha

/-- A row found after the call was there before. -/
theorem row_of_after {a' : JobAttempt} (ha' : a' ∈ (s.after c).db.attempts.rows) :
    ∃ a ∈ s.db.attempts.rows, c.onAttempt s.db a = a' := by
  rw [Recorded.after, run_attempts hc] at ha'
  exact List.mem_map.mp ha'

/-- Rows stay with their claims. -/
theorem OpenedBy.after {id : JobId} {g g' : Grant Claimant} {a : JobAttempt}
    (h : OpenedBy s.db.attempts id g a) (hg : g'.ident = g.ident) :
    OpenedBy (s.after c).db.attempts id g' (c.onAttempt s.db a) := by
  have hsame := onAttempt_same s.db c a
  simp only [Grant.ident, Prod.mk.injEq] at hg
  obtain ⟨-, -, htok, hholder⟩ := hg
  refine ⟨?_, ?_, ?_, ?_, ?_, ?_⟩
  · rw [hsame.id]
    exact get_after hc h.row
  · rw [hholder, hsame.id, h.opened]
  · rw [hsame.jobId, h.jobId]
  · rw [hholder, hsame.workerId, h.worker]
  · rw [hsame.attempt, htok, h.attempt]
  · rw [hholder, hsame.claimedAt, h.claimedAt]

end Other

/-- A row that stays claimed keeps its record. -/
theorem claims_of_claimed {s : Recorded} {c : Call} {id : JobId} {j j' : ProcessingJob}
    (hj : s.db.jobs.get id = some j) (hs : j.status = .claimed)
    (hj' : (s.after c).db.jobs.get id = some j') (hs' : j'.status = .claimed) :
    (s.after c).claims id = s.claims id := by
  have hj' : (c.run s.db).jobs.get id = some j' := hj'
  simp only [Recorded.after]
  rw [hj, hj']
  exact observeRow_of_status (hs'.trans hs.symm)

/-! ## How a claim ends -/

/-- The outcome of a claim that a settling call ended, leaving the job in `status`. -/
def Settle.ending (status : Status) : Settle → Outcome
  | .complete => .completed
  | .fail .. => if status = .deadLetter then .deadLetter else .failed
  | .defer .. => .deferred
  | .continued .. => .continued

/-- The outcome and the instant of a claim that the call ended, leaving the job in `status`. -/
def Call.ending (status : Status) : Call → Option (Outcome × Instant)
  | .settle st _ args => some (st.ending status, args.now)
  | .release _ _ now _ => some (.released, now)
  | .reclaim now _ _ => some (.leaseExpired, now)
  | _ => none

/-- Only a settlement, a release and an expired lease take a row out of `claimed`. -/
theorem RowStep.ending_ne_none {c : Call} {j j' : ProcessingJob} (h : RowStep c j j')
    (hs : j.status = .claimed) (hs' : j'.status ≠ .claimed) : c.ending j'.status ≠ none := by
  cases h with
  | settle _ _ | release _ | expireLast _ _ | expireRequeue _ _ => exact Option.some_ne_none _
  | claim hp => exact nomatch hp.symm.trans hs
  | claimSelected ht => exact nomatch ht.2.symm.trans hs
  | replay hd => exact nomatch hd.symm.trans hs
  | keep | renew _ => exact absurd hs hs'
  | claimCallback _ | notified _ | deferCallback _ | releaseCallback _ => exact absurd hs hs'

section Target

variable {s : Recorded} (h : History s) (hsync : ∀ id, InSync (s.db.jobs.get id) (s.claims id))
include h hsync

/-- The row of the newest claim with its numbers is the one a settlement finds. -/
theorem History.target_eq {id : JobId} {g : Grant Claimant} {a : JobAttempt} {owned : Bool}
    (hg : g ∈ (s.claims id).grants) (ha : OpenedBy s.db.attempts id g a) (hset : Settleable owned a)
    (hnewest : ∀ g' ∈ (s.claims id).grants, g'.holder.lockedBy = g.holder.lockedBy →
      g'.token = g.token → g'.serial ≤ g.serial) :
    finishTarget s.db.attempts id a.workerId a.attempt owned = some a.id := by
  refine finishTarget_eq_some (Table.mem_of_get ha.row) ⟨ha.jobId, rfl, rfl⟩ hset ?_
  rintro b hb ⟨rfl, hworker, hattempt⟩ hne
  obtain ⟨g', hg', hb⟩ := h.source b hb
  have hlock : g'.holder.lockedBy = g.holder.lockedBy := by rw [hb.worker, ha.worker, hworker]
  have htok : g'.token = g.token := by rw [← hb.attempt, ← ha.attempt, hattempt]
  rcases (hnewest g' hg' hlock htok).lt_or_eq with hlt | heq
  · exact h.clock _ g' hg' g hg hlt hlock _ hb.claimedAt _ ha.claimedAt
  · obtain rfl := (hsync _).numbered.eq_of_serial hg' hg heq
    exact absurd (hb.row_eq ha) hne

omit h in
/-- The row of the live claim carries the numbers its job shows. -/
theorem live_row {id : JobId} {j : ProcessingJob} {l : Grant Claimant} {a : JobAttempt}
    (hj : s.db.jobs.get id = some j) (hs : j.status = .claimed)
    (hl : (s.claims id).last? = some l) (ha : OpenedBy s.db.attempts id l a) :
    a.attempt = j.attempts ∧ some a.workerId = j.lockedBy := by
  have hid := hsync id
  rw [hj] at hid
  obtain ⟨l', hl', -, htok, hlock⟩ := hid.2 hs
  obtain rfl := Option.some.inj (hl.symm.trans hl')
  exact ⟨ha.attempt.trans htok, ha.worker.symm.trans hlock⟩

omit h in
/-- A worker that names the numbers of the live claim's row owns the job. -/
theorem owned_of_live_row {j : ProcessingJob} {l : Grant Claimant} {a : JobAttempt}
    (hj : s.db.jobs.get a.jobId = some j) (hs : j.status = .claimed)
    (hl : (s.claims a.jobId).last? = some l) (ha : OpenedBy s.db.attempts a.jobId l a)
    {gen : ClaimGeneration} (hof : AttemptOf gen.jobId gen.workerId gen.attempt a) :
    Owned s.db gen := by
  obtain ⟨hjob, hworker, hattempt⟩ := hof
  obtain ⟨hatt, hlock⟩ := live_row hsync hj hs hl ha
  rw [hjob] at hj
  refine ⟨j, hj, Table.key_of_get hj, hs, ?_, ?_⟩
  · rw [← hlock, hworker]
  · rw [← hatt, hattempt]

/-- The row of the live claim is the one its settlement finds. -/
theorem History.target_live {id : JobId} {j : ProcessingJob} {l : Grant Claimant} {a : JobAttempt}
    (hj : s.db.jobs.get id = some j) (hs : j.status = .claimed)
    (hl : (s.claims id).last? = some l) (ha : OpenedBy s.db.attempts id l a) (owned : Bool) :
    finishTarget s.db.attempts id a.workerId a.attempt owned = some a.id := by
  have hset : Settleable owned a := by
    by_cases hopen : a.finishedAt = none
    · exact Or.inl (Or.inl hopen)
    · exact Or.inl (Or.inr (h.liveOpen id j l a hj hs hl ha hopen))
  refine h.target_eq hsync (GrantLog.last?_mem hl) ha hset fun g' hg' _ _ => ?_
  exact (hsync id).numbered.serial_le_last hl hg'

end Target

/-- **What a call other than a claim may do to an attempt row.** -/
inductive AttemptStep (s : Recorded) (c : Call) (a : JobAttempt) : JobAttempt → Prop
  | keep : AttemptStep s c a a
  /-- The handler of the claim began. -/
  | start (now : Instant) : a.finishedAt = none → AttemptStep s c a (a.start now)
  /-- The worker gave the claim up. -/
  | abandon (now : Instant) : a.finishedAt = none → AttemptStep s c a (a.close .abandoned now)
  /-- The row is that of the live claim, and the call ended it. -/
  | ended {j j' : ProcessingJob} {l : Grant Claimant} {a' : JobAttempt} {outcome : Outcome}
      {now : Instant} :
      s.db.jobs.get a.jobId = some j → j.status = .claimed →
      (s.after c).db.jobs.get a.jobId = some j' → j'.status ≠ .claimed →
      (s.claims a.jobId).last? = some l → OpenedBy s.db.attempts a.jobId l a →
      c.ending j'.status = some (outcome, now) →
      a'.outcome = some outcome → a'.finishedAt = some now → AttemptStep s c a a'
  /-- A worker settled a claim that it had lost. -/
  | late {st : Settle} {gen : ClaimGeneration} {args : SettleArgs} :
      c = .settle st gen args → ¬ Owned s.db gen →
      finishTarget s.db.attempts gen.jobId gen.workerId gen.attempt false = some a.id →
      AttemptStep s c a
        (a.finish (finishValues s.db gen.jobId gen.attempt args.now st.late false).1
          (finishValues s.db gen.jobId gen.attempt args.now st.late false).2 args.durationMs
          st.error)

/-- A row that is open after a call was open before it. -/
theorem AttemptStep.open {s : Recorded} {c : Call} {a a' : JobAttempt} (h : AttemptStep s c a a')
    (hopen : a'.finishedAt = none) : a.finishedAt = none := by
  cases h with
  | keep => exact hopen
  | start now ho => exact ho
  | abandon now ho => exact ho
  | ended _ _ _ _ _ _ _ _ hend => exact nomatch hend.symm.trans hopen
  | late _ _ _ => exact nomatch hopen

/-- A settlement that writes the row takes the job out of `claimed`, and names how. -/
theorem Settle.ending_verdict {st : Settle} {now : Instant} {j : ProcessingJob}
    {status : SettleStatus} {outcome : Outcome} {row : RowWrite}
    (hv : st.verdict now j = .write status outcome row) :
    (row.set j).status ≠ .claimed ∧ st.ending (row.set j).status = outcome := by
  cases st with
  | complete =>
    obtain ⟨-, rfl, rfl⟩ := Verdict.write.inj hv
    exact ⟨by rintro ⟨⟩, rfl⟩
  | fail text base ceiling jitter =>
    rw [Settle.verdict, failVerdict] at hv
    split at hv
    · obtain ⟨-, rfl, rfl⟩ := Verdict.write.inj hv
      exact ⟨by rintro ⟨⟩, rfl⟩
    · obtain ⟨-, rfl, rfl⟩ := Verdict.write.inj hv
      exact ⟨by rintro ⟨⟩, rfl⟩
  | defer text retryAt maxDeferrals =>
    rw [Settle.verdict, deferVerdict] at hv
    split at hv
    · cases hv
    · obtain ⟨-, rfl, rfl⟩ := Verdict.write.inj hv
      exact ⟨by rintro ⟨⟩, rfl⟩
  | continued text availableAt maxContinuations =>
    rw [Settle.verdict, continueVerdict] at hv
    split at hv
    · cases hv
    · obtain ⟨-, rfl, rfl⟩ := Verdict.write.inj hv
      exact ⟨by rintro ⟨⟩, rfl⟩

section Step

variable {s : Recorded} {c : Call} (h : History s) (hsync : ∀ id, InSync (s.db.jobs.get id) (s.claims id))
include h hsync

/-- The row that an owned settlement finds is that of the live claim. -/
theorem History.live_of_target {gen : ClaimGeneration} {j : ProcessingJob} {a : JobAttempt}
    (hj : s.db.jobs.get gen.jobId = some j) (ho : OwnedClaim gen j)
    (ht : finishTarget s.db.attempts gen.jobId gen.workerId gen.attempt true = some a.id)
    (ha : a ∈ s.db.attempts.rows) :
    a.jobId = gen.jobId ∧ ∃ l, (s.claims gen.jobId).last? = some l ∧
      OpenedBy s.db.attempts gen.jobId l a := by
  have hid := hsync gen.jobId
  rw [hj] at hid
  obtain ⟨l, hl, -⟩ := hid.2 ho.2.1
  obtain ⟨b, hb⟩ := h.opened gen.jobId l (GrantLog.last?_mem hl)
  obtain ⟨hatt, hlock⟩ := live_row hsync hj ho.2.1 hl hb
  have hworker : b.workerId = gen.workerId := Option.some.inj (hlock.trans ho.2.2.1)
  have htb := h.target_live hsync hj ho.2.1 hl hb true
  rw [hworker, hatt, ho.2.2.2, ht] at htb
  obtain rfl := Table.eq_of_key_eq ha (Table.mem_of_get hb.row) (Option.some.inj htb)
  exact ⟨hb.jobId, l, hl, hb⟩

/-- **Every call but a claim takes every attempt row through one such step.** -/
theorem History.attemptStep
    (hclose : ∀ jobAttempts workerId outcome now,
      c = .close jobAttempts workerId outcome now → outcome = .abandoned)
    {a : JobAttempt} (ha : a ∈ s.db.attempts.rows) : AttemptStep s c a (c.onAttempt s.db a) := by
  cases c with
  | release jobAttempts workerId now recordAttempts =>
    rw [Call.onAttempt]
    split
    case isFalse => exact .keep
    case isTrue hif =>
      obtain ⟨-, -, hmatch, hworker, hopen⟩ := hif
      -- the row is open, so it is that of the live claim, and the release matches the job too
      obtain ⟨j, hj, hs, l, hl, hop⟩ := h.openLive a ha hopen
      obtain ⟨hatt, hlock⟩ := live_row hsync hj hs hl hop
      have hheld : HeldClaim jobAttempts workerId j := by
        refine ⟨?_, hs, ?_⟩
        · rwa [Table.key_of_get hj, ← hatt]
        · rw [← hlock, hworker]
      have hj' : (s.after (.release jobAttempts workerId now recordAttempts)).db.jobs.get a.jobId =
          some (j.release now) := by
        rw [Recorded.after, Call.run, get_releaseLeases, hj, Option.map_some, if_pos hheld]
      exact .ended hj hs hj' (by rintro ⟨⟩) hl hop rfl rfl rfl
  | settle st gen args =>
    rw [Call.onAttempt]
    by_cases ho : Owned s.db gen
    · obtain ⟨j, hj, ho⟩ := ho
      have hj : s.db.jobs.get gen.jobId = some j := hj
      rw [st.onAttempt_of_owned args hj ho]
      cases hv : st.verdict args.now j with
      | exhausted status => exact .keep
      | write status outcome row =>
        dsimp only
        split
        case isFalse => exact .keep
        case isTrue hif =>
          obtain ⟨hid, l, hl, hop⟩ := h.live_of_target hsync hj ho hif.2 ha
          -- the settlement finds the job still claimed, and closes the row of that claim
          obtain ⟨hend, hout⟩ := Settle.ending_verdict hv
          rw [← hid] at hj hl hop
          have hj' : (s.after (.settle st gen args)).db.jobs.get a.jobId = some (row.set j) := by
            rw [Recorded.after, Call.run, get_settle, hj, Option.map_some, if_pos ho, hv]
            rfl
          have hending : (Call.settle st gen args).ending (row.set j).status =
              some (outcome, args.now) := by
            rw [Call.ending, hout]
          exact .ended hj ho.2.1 hj' hend hl hop hending rfl rfl
    · rw [st.onAttempt_of_not_owned args ho]
      split
      case isFalse => exact .keep
      case isTrue hif => exact .late rfl ho hif.2
  | reclaim now limit scan =>
    rw [Call.onAttempt]
    split
    case isFalse => exact .keep
    case isTrue hif =>
      obtain ⟨hopen, hmem⟩ := hif
      obtain ⟨j, hj, hs, l, hl, hop⟩ := h.openLive a ha hopen
      -- the reaper takes the job that the row is of
      obtain ⟨j₀, hj₀, hexp⟩ := mem_expiredIds hmem
      obtain rfl := Option.some.inj (hj.symm.trans hj₀)
      have hj' : (s.after (.reclaim now limit scan)).db.jobs.get a.jobId = some (j.expire now) := by
        rw [Recorded.after, Call.run, get_reclaim, hj, Option.map_some,
          if_pos ⟨(Table.key_of_get hj).symm ▸ hmem, hexp⟩]
      exact .ended hj hs hj' (status_expire j now) hl hop rfl rfl rfl
  | close jobAttempts workerId outcome now =>
    obtain rfl := hclose _ _ _ _ rfl
    rw [Call.onAttempt]
    split
    case isTrue hif => exact .abandon now hif.2.2
    case isFalse => exact .keep
  | markStarted gen now =>
    rw [Call.onAttempt]
    split
    case isTrue hif => exact .start now hif.2
    case isFalse => exact .keep
  | _ => exact .keep

/-- **A call that takes a job out of `claimed` closes the row of its claim**, unless the worker had
given the claim up and the call is not its settlement. -/
theorem History.ends (hrec : c.Recording) {id : JobId} {j j' : ProcessingJob} {l : Grant Claimant}
    {a : JobAttempt} (hj : s.db.jobs.get id = some j) (hs : j.status = .claimed)
    (hj' : (s.after c).db.jobs.get id = some j') (hs' : j'.status ≠ .claimed)
    (hl : (s.claims id).last? = some l) (ha : OpenedBy s.db.attempts id l a) :
    ∃ outcome now, c.ending j'.status = some (outcome, now) ∧
      (((c.onAttempt s.db a).outcome = some outcome ∧ (c.onAttempt s.db a).finishedAt = some now) ∨
        ((outcome = .released ∨ outcome = .leaseExpired) ∧ a.finishedAt ≠ none ∧
          a.outcome = some .abandoned ∧ c.onAttempt s.db a = a)) := by
  obtain ⟨j₁, hj₁, hrow⟩ := run_get_some c hj
  obtain rfl := Option.some.inj (hj₁.symm.trans hj')
  obtain ⟨hatt, hlock⟩ := live_row hsync hj hs hl ha
  have hid := Table.key_of_get hj
  cases c with
  | release jobAttempts workerId now recordAttempts =>
    refine ⟨.released, now, rfl, ?_⟩
    have hheld : HeldClaim jobAttempts workerId j := by
      by_contra hno
      rw [Call.run, get_releaseLeases, hj, Option.map_some, if_neg hno] at hj₁
      exact hs' (Option.some.inj hj₁ ▸ hs)
    -- the release matches the job, so that it closes rows at all
    have hcount : s.db.jobs.rowcount (HeldClaim jobAttempts workerId) ≠ 0 := by
      rw [Table.rowcount, ne_eq, List.countP_eq_zero]
      exact fun hno => hno j (Table.mem_of_get hj) (decide_eq_true hheld)
    by_cases hopen : a.finishedAt = none
    · have hclaim : OpenClaim jobAttempts workerId a := by
        refine ⟨?_, Option.some.inj (hlock.trans hheld.2.2), hopen⟩
        rw [ha.jobId, ← hid, hatt]
        exact hheld.1
      rw [Call.onAttempt, if_pos ⟨hrec, hcount, hclaim⟩]
      exact Or.inl ⟨rfl, rfl⟩
    · rw [Call.onAttempt, if_neg fun hif => hopen hif.2.2.2.2]
      exact Or.inr ⟨Or.inl rfl, hopen, h.liveOpen id j l a hj hs hl ha hopen, rfl⟩
  | settle st gen args =>
    have ho : OwnedClaim gen j := by
      by_contra hno
      rw [Call.run, get_settle, hj, Option.map_some, if_neg hno] at hj₁
      exact hs' (Option.some.inj hj₁ ▸ hs)
    have hgen : gen.jobId = id := ho.1.symm.trans hid
    rw [Call.run, get_settle, hj, Option.map_some, if_pos ho] at hj₁
    rw [Call.onAttempt, st.onAttempt_of_owned args (hgen ▸ hj) ho]
    cases hv : st.verdict args.now j with
    | exhausted status =>
      rw [hv] at hj₁
      have hkeep : j = j₁ := Option.some.inj hj₁
      exact absurd (hkeep ▸ hs) hs'
    | write status outcome row =>
      rw [hv] at hj₁
      obtain rfl : row.set j = j₁ := Option.some.inj hj₁
      obtain ⟨hend, hout⟩ := Settle.ending_verdict hv
      -- the row that the settlement looks for is that of the claim
      have htarget : finishTarget s.db.attempts gen.jobId gen.workerId gen.attempt true =
          some a.id := by
        have hlive := h.target_live hsync hj hs hl ha true
        rwa [hatt, ← hgen, Option.some.inj (hlock.trans ho.2.2.1), ho.2.2.2] at hlive
      refine ⟨outcome, args.now, by rw [Call.ending, hout], ?_⟩
      dsimp only
      rw [if_pos ⟨hrec, htarget⟩]
      exact Or.inl ⟨rfl, rfl⟩
  | reclaim now limit scan =>
    refine ⟨.leaseExpired, now, rfl, ?_⟩
    have hexp : j.id ∈ expiredIds s.db now limit scan := by
      by_contra hno
      rw [Call.run, get_reclaim, hj, Option.map_some, if_neg fun hif => hno hif.1] at hj₁
      exact hs' (Option.some.inj hj₁ ▸ hs)
    by_cases hopen : a.finishedAt = none
    · rw [Call.onAttempt, if_pos ⟨hopen, by rwa [ha.jobId, ← hid]⟩]
      exact Or.inl ⟨rfl, rfl⟩
    · rw [Call.onAttempt, if_neg fun hif => hopen hif.1]
      exact Or.inr ⟨Or.inr rfl, hopen, h.liveOpen id j l a hj hs hl ha hopen, rfl⟩
  | _ => exact absurd rfl (hrow.ending_ne_none hs hs')

/-- **A call other than a claim keeps the history.** -/
theorem History.after (hc : c.isClaim = false) (hrec : c.Recording) : History (s.after c) := by
  have hclose : ∀ jobAttempts workerId outcome now,
      c = .close jobAttempts workerId outcome now → outcome = .abandoned := by
    rintro jobAttempts workerId outcome now rfl
    exact hrec
  have hback {id : JobId} {g' : Grant Claimant} (hg' : g' ∈ ((s.after c).claims id).grants) :
      ∃ g ∈ (s.claims id).grants, g'.ident = g.ident := by
    obtain ⟨g, hg, he⟩ := GrantLog.exists_of_map_ident (ident_after hc id).symm hg'
    exact ⟨g, hg, he.symm⟩
  refine ⟨?_, ?_, ?_, ?_, ?_⟩
  · intro id g' hg'
    obtain ⟨g, hg, he⟩ := hback hg'
    obtain ⟨a, ha⟩ := h.opened id g hg
    exact ⟨_, ha.after hc he⟩
  · intro a' ha'
    obtain ⟨a, ha, rfl⟩ := row_of_after hc ha'
    obtain ⟨g, hg, hop⟩ := h.source a ha
    obtain ⟨g', hg', he⟩ := GrantLog.exists_of_map_ident (ident_after hc a.jobId) hg
    rw [(onAttempt_same s.db c a).jobId]
    exact ⟨g', hg', hop.after hc he⟩
  · intro id g₁ hg₁ g₂ hg₂ hlt hworker
    obtain ⟨g₁', hg₁', he₁⟩ := hback hg₁
    obtain ⟨g₂', hg₂', he₂⟩ := hback hg₂
    simp only [Grant.ident, Prod.mk.injEq] at he₁ he₂
    rw [he₁.2.2.2, he₂.2.2.2] at hworker ⊢
    exact h.clock id g₁' hg₁' g₂' hg₂' (by omega) hworker
  · intro a' ha' hopen'
    obtain ⟨a, ha, rfl⟩ := row_of_after hc ha'
    have hopen := (h.attemptStep hsync hclose ha).open hopen'
    obtain ⟨j, hj, hs, l, hl, hop⟩ := h.openLive a ha hopen
    obtain ⟨j', hj', -⟩ := run_get_some c hj
    -- had the call ended the claim, it would have closed the row
    have hs' : j'.status = .claimed := by
      by_contra hs'
      obtain ⟨outcome, now, -, ⟨-, hend⟩ | ⟨-, hend, -⟩⟩ := h.ends hsync hrec hj hs hj' hs' hl hop
      · exact nomatch hend.symm.trans hopen'
      · exact hend hopen
    rw [(onAttempt_same s.db c a).jobId]
    refine ⟨j', hj', hs', l, ?_, hop.after hc rfl⟩
    rwa [claims_of_claimed hj hs hj' hs']
  · intro id j' l a' hj' hs' hl ha' hend'
    have hrun : (c.run s.db).jobs.get id = some j' := hj'
    rcases run_get c hrun with ⟨-, hnew⟩ | ⟨j, hj, hrow⟩
    · exact nomatch (status_newRow hnew).symm.trans hs'
    · have hs : j.status = .claimed := by
        by_contra hs
        exact nomatch hc.symm.trans (hrow.isClaim hs hs')
      rw [claims_of_claimed hj hs hj' hs'] at hl
      obtain ⟨a, ha⟩ := h.opened id l (GrantLog.last?_mem hl)
      obtain rfl := ha'.row_eq (ha.after hc rfl)
      obtain rfl := ha.jobId
      generalize hrow' : c.onAttempt s.db a = a' at hend' ⊢
      have hstep := h.attemptStep hsync hclose (Table.mem_of_get ha.row)
      rw [hrow'] at hstep
      -- a row of a live claim that is finished was finished before, or given up just now
      cases hstep with
      | keep => exact h.liveOpen _ j l _ hj hs hl ha hend'
      | start now hopen => exact absurd hopen hend'
      | abandon now hopen => rfl
      | ended _ _ hafter hnot _ _ _ _ _ =>
        exact absurd hs' (Option.some.inj (hafter.symm.trans hj') ▸ hnot)
      | late _ hno ht =>
        obtain ⟨b, hb, hof, -⟩ := mem_finishTarget ht
        obtain rfl := Option.some.inj (hb.symm.trans ha.row)
        exact absurd (owned_of_live_row hsync hj hs hl ha hof) hno

/-- **A call that takes a job out of `claimed` writes no other attempt row of the job.** -/
theorem History.others (hrec : c.Recording) {id : JobId} {j j' : ProcessingJob} {l : Grant Claimant}
    {a b : JobAttempt} (hj : s.db.jobs.get id = some j) (hs : j.status = .claimed)
    (hj' : (s.after c).db.jobs.get id = some j') (hs' : j'.status ≠ .claimed)
    (hl : (s.claims id).last? = some l) (ha : OpenedBy s.db.attempts id l a)
    (hb : b ∈ s.db.attempts.rows) (hid : b.jobId = id) (hne : b ≠ a) : c.onAttempt s.db b = b := by
  subst hid
  have hclose : ∀ jobAttempts workerId outcome now,
      c = .close jobAttempts workerId outcome now → outcome = .abandoned := by
    rintro jobAttempts workerId outcome now rfl
    exact hrec
  -- the one row of the job that may be open is that of the live claim
  have hclosed : b.finishedAt ≠ none := by
    intro hopen
    obtain ⟨_, -, -, l', hl', hop⟩ := h.openLive b hb hopen
    obtain rfl := Option.some.inj (hl.symm.trans hl')
    exact hne (hop.row_eq ha)
  have hstep := h.attemptStep hsync hclose hb
  generalize c.onAttempt s.db b = b' at hstep ⊢
  cases hstep with
  | keep => rfl
  | start now hopen => exact absurd hopen hclosed
  | abandon now hopen => exact absurd hopen hclosed
  | ended _ _ _ _ hl' hop _ _ _ =>
    obtain rfl := Option.some.inj (hl.symm.trans hl')
    exact absurd (hop.row_eq ha) hne
  | late hcall hno _ =>
    -- a late settlement leaves the job as it is
    subst hcall
    have hnot : ∀ gen, ¬ Owned s.db gen → ¬ OwnedClaim gen j := fun gen hno ho =>
      hno (owned_iff.mpr ⟨j, Table.mem_of_get hj, ho⟩)
    have hj₁ := hj'
    rw [Recorded.after, Call.run, get_settle, hj, Option.map_some, if_neg (hnot _ hno)] at hj₁
    exact absurd (Option.some.inj hj₁ ▸ hs) hs'

end Step

/-! ## Every run -/

/-- An atomic claim passes over the rows that are claimed. -/
theorem holdsNone_of_pending {db : Db} {jobIds : List JobId} {workerId : WorkerId}
    (h : ∀ id ∈ jobIds, ∃ j, db.jobs.get id = some j ∧ j.status = .pending) :
    HoldsNone db jobIds workerId := by
  rintro j hj ⟨hmem, hs, -⟩
  obtain ⟨j', hj', hs'⟩ := h j.id hmem
  obtain rfl := Option.some.inj (hj'.symm.trans (Table.get_key hj))
  exact nomatch hs'.symm.trans hs

/-- What a recorded claim does: nothing, or its update for rows it opens afresh. -/
theorem Fenced.Records.claim_cases {s : Fenced} {c : Call} (hrec : s.Records c)
    (hc : c.isClaim = true) :
    s.toRecorded.after c = s.toRecorded ∨
      ∃ r jobIds mint, c.run s.db = claimUpdate s.db r jobIds mint ∧ r.recordAttempts = true ∧
        FreshIds s.db mint ∧ HoldsNone s.db jobIds r.workerId ∧ s.ClockPast r := by
  cases c with
  | claim r mint =>
    obtain ⟨hrecord, hfresh, hpast⟩ := hrec
    cases hrun : claimJobs s.db r mint with
    | error e => exact Or.inl (Recorded.after_eq_self (by rw [Call.run, hrun]))
    | ok result =>
      obtain ⟨claimed, db'⟩ := result
      rcases claimJobs_ok hrun with ⟨rfl, -⟩ | ⟨selected, jobIds, rfl, -, hdue⟩
      · exact Or.inl (Recorded.after_eq_self (by rw [Call.run, hrun]))
      · refine Or.inr ⟨r, jobIds, mint, by rw [Call.run, hrun], hrecord, hfresh, ?_, hpast⟩
        refine holdsNone_of_pending fun id hid => ?_
        obtain ⟨j, hj, hs, -⟩ := hdue id hid
        exact ⟨j, hj, hs⟩
  | claimSelected r jobIds mint =>
    obtain ⟨hrecord, hfresh, hpast, hnone⟩ := hrec
    exact Or.inr ⟨r, jobIds, mint, rfl, hrecord, hfresh, hnone, hpast⟩
  | _ => cases hc

/-- **One recorded call keeps the history.** -/
theorem History.afterRecords {s : Fenced} (h : History s.toRecorded)
    (hsync : ∀ id, InSync (s.db.jobs.get id) (s.claims id)) {c : Call} (hrec : s.Records c) :
    History (s.toRecorded.after c) := by
  by_cases hc : c.isClaim = true
  · rcases hrec.claim_cases hc with hself | ⟨r, jobIds, mint, hrun, hrecord, hfresh, hnone, hpast⟩
    · rwa [hself]
    · refine h.claim hrun hrecord hfresh hnone (fun id => (hsync id).numbered) ?_
      intro id g hg hlock
      have hid := hsync id
      cases hj : s.db.jobs.get id with
      | none =>
        rw [hj] at hid
        have hempty : s.claims id = .empty := hid
        rw [hempty] at hg
        exact nomatch hg
      | some j =>
        obtain rfl := Table.key_of_get hj
        exact hpast j (Table.mem_of_get hj) g hg hlock
  · exact h.after hsync (by simpa using hc) hrec.1

/-- **The history holds in every state of a run that records its attempts.** -/
theorem history_of_reaches {s : Fenced}
    (h : Reaches Fenced.step Fenced.MayRecord Fenced.init s) : s.Inv ∧ History s.toRecorded := by
  refine h.invariant (fun s => s.Inv ∧ History s.toRecorded) ⟨Fenced.inv_init, history_init⟩ ?_
  rintro s a s' - ⟨hinv, hhist⟩ ⟨hissue, hrec⟩ hstep
  obtain rfl := Option.some.inj hstep
  exact ⟨hinv.after hissue, hhist.afterRecords hinv.inSync hrec⟩

/-- **The attempt history.** In every state of a run that records its attempts:

* a claimed job has the one row its live claim opened, open or `abandoned`, and no other open row;
* a job with an open row is claimed;
* a call that takes the job out of `claimed` closes that one row of the job with its own outcome,
  but a release and an expired lease leave it `abandoned` if it was. -/
theorem attempt_history {s : Fenced} (h : Reaches Fenced.step Fenced.MayRecord Fenced.init s) :
    (∀ id j, s.db.jobs.get id = some j → j.status = .claimed →
      ∃ l a, (s.claims id).last? = some l ∧ OpenedBy s.db.attempts id l a ∧
        (a.finishedAt = none ∨ a.outcome = some .abandoned) ∧
        ∀ b ∈ s.db.attempts.rows, b.jobId = id → b.finishedAt = none → b = a) ∧
    (∀ b ∈ s.db.attempts.rows, b.finishedAt = none →
      ∃ j, s.db.jobs.get b.jobId = some j ∧ j.status = .claimed) ∧
    ∀ a, s.MayRecord a → ∀ id j j', s.db.jobs.get id = some j → j.status = .claimed →
      (s.after a).db.jobs.get id = some j' → j'.status ≠ .claimed →
      ∃ l row row' outcome now, (s.claims id).last? = some l ∧
        OpenedBy s.db.attempts id l row ∧ (s.after a).db.attempts.get row.id = some row' ∧
        a.call.ending j'.status = some (outcome, now) ∧
        ((row'.outcome = some outcome ∧ row'.finishedAt = some now) ∨
          ((outcome = .released ∨ outcome = .leaseExpired) ∧ row.outcome = some .abandoned ∧
            row' = row)) ∧
        ∀ b ∈ (s.after a).db.attempts.rows, b.jobId = id → b.id ≠ row.id →
          b ∈ s.db.attempts.rows := by
  obtain ⟨hinv, hhist⟩ := history_of_reaches h
  -- the live claim of a claimed job, and its row
  have hlive {id : JobId} {j : ProcessingJob} (hj : s.db.jobs.get id = some j)
      (hs : j.status = .claimed) :
      ∃ l a, (s.claims id).last? = some l ∧ OpenedBy s.db.attempts id l a := by
    have hid := hinv.inSync id
    rw [hj] at hid
    obtain ⟨l, hl, -⟩ := hid.2 hs
    obtain ⟨a, ha⟩ := hhist.opened id l (GrantLog.last?_mem hl)
    exact ⟨l, a, hl, ha⟩
  refine ⟨?_, ?_, ?_⟩
  · intro id j hj hs
    obtain ⟨l, a, hl, ha⟩ := hlive hj hs
    refine ⟨l, a, hl, ha, ?_, ?_⟩
    · by_cases hopen : a.finishedAt = none
      · exact Or.inl hopen
      · exact Or.inr (hhist.liveOpen id j l a hj hs hl ha hopen)
    · rintro b hb rfl hopen
      obtain ⟨_, -, -, l', hl', hop⟩ := hhist.openLive b hb hopen
      obtain rfl := Option.some.inj (hl.symm.trans hl')
      exact hop.row_eq ha
  · intro b hb hopen
    obtain ⟨j, hj, hs, -⟩ := hhist.openLive b hb hopen
    exact ⟨j, hj, hs⟩
  · intro a ha id j j' hj hs hj' hs'
    obtain ⟨l, row, hl, hrow⟩ := hlive hj hs
    obtain ⟨outcome, now, hend, hclosed⟩ :=
      hhist.ends hinv.inSync ha.2.1 hj hs hj' hs' hl hrow
    have hc : a.call.isClaim = false := by
      cases hcall : a.call with
      | claim r mint | claimSelected r jobIds mint =>
        rw [hcall] at hend
        exact nomatch hend
      | _ => rfl
    refine ⟨l, row, _, outcome, now, hl, hrow, get_after hc hrow.row, hend, ?_, ?_⟩
    · rcases hclosed with hclosed | ⟨hout, -, habandoned, hkept⟩
      · exact Or.inl hclosed
      · exact Or.inr ⟨hout, habandoned, hkept⟩
    · intro b' hb' hid hne
      obtain ⟨b, hb, rfl⟩ := row_of_after hc hb'
      have hsame := onAttempt_same s.db a.call b
      rw [hsame.jobId] at hid
      have hbne : b ≠ row := fun he => hne (he ▸ hsame.id)
      rwa [hhist.others hinv.inSync ha.2.1 hj hs hj' hs' hl hrow hb hid hbne]

/-- The worker that claimed the job gives it up when its time is over. -/
def Fenced.abandonedRun : Fenced :=
  [⟨sampleInsert 3, []⟩, ⟨sampleClaim "worker" 1 "a", []⟩,
    ⟨.close [("job", 1)] "worker" .abandoned 2, []⟩].foldl Fenced.after Fenced.init

/-- The sample is a run. -/
theorem Fenced.abandonedRun_reaches :
    Reaches Fenced.step Fenced.MayRecord Fenced.init Fenced.abandonedRun :=
  ((Reaches.refl.tail (by decide +kernel) rfl).tail (by decide +kernel) rfl).tail
    (by decide +kernel) rfl

/-- The job is still claimed then, and its one row is `abandoned`. -/
theorem attempt_history_claimed :
    ∃ a ∈ Fenced.abandonedRun.db.attempts.rows, a.outcome = some .abandoned ∧
      ∀ b ∈ Fenced.abandonedRun.db.attempts.rows, b.jobId = "job" → b.finishedAt = none → b = a := by
  have hclaimed : ∃ j ∈ Fenced.abandonedRun.db.jobs.get "job", j.status = .claimed := by
    decide +kernel
  obtain ⟨j, hj, hs⟩ := hclaimed
  obtain ⟨l, a, -, ha, -, hother⟩ :=
    (attempt_history Fenced.abandonedRun_reaches).1 "job" j hj hs
  have hrow := Table.mem_of_get ha.row
  have hall : ∀ a ∈ Fenced.abandonedRun.db.attempts.rows, a.outcome = some .abandoned := by
    decide +kernel
  exact ⟨a, hrow, hall a hrow, hother⟩

/-- When the lease of the claim that was given up runs out, its row does not say so. -/
theorem attempt_history_not_lease_expired :
    ¬ ∀ s a id j j' l row row' outcome now,
      Reaches Fenced.step Fenced.MayRecord Fenced.init s → s.MayRecord a →
      s.db.jobs.get id = some j → j.status = .claimed →
      (s.after a).db.jobs.get id = some j' → j'.status ≠ .claimed →
      (s.claims id).last? = some l → OpenedBy s.db.attempts id l row →
      (s.after a).db.attempts.get row.id = some row' →
      a.call.ending j'.status = some (outcome, now) → row'.outcome = some outcome := by
  intro hclaim
  set a : Issued := ⟨.reclaim 70000000 10 ["job"], []⟩ with ha
  have hmay : Fenced.abandonedRun.MayRecord a := by decide +kernel
  have hbefore : ∃ j ∈ Fenced.abandonedRun.db.jobs.get "job", j.status = .claimed := by
    decide +kernel
  have hafter : ∃ j ∈ (Fenced.abandonedRun.after a).db.jobs.get "job", j.status ≠ .claimed := by
    decide +kernel
  obtain ⟨j, hj, hs⟩ := hbefore
  obtain ⟨j', hj', hs'⟩ := hafter
  obtain ⟨hinv, hhist⟩ := history_of_reaches Fenced.abandonedRun_reaches
  obtain ⟨l, hl⟩ : ∃ l, (Fenced.abandonedRun.claims "job").last? = some l :=
    Option.isSome_iff_exists.mp (by decide +kernel)
  obtain ⟨row, hrow⟩ := hhist.opened "job" l (GrantLog.last?_mem hl)
  have hrow' := get_after (c := a.call) rfl hrow.row
  have hout := hclaim _ a "job" j j' l row _ .leaseExpired 70000000
    Fenced.abandonedRun_reaches hmay hj hs hj' hs' hl hrow hrow' rfl
  have hall : ∀ row ∈ (Fenced.abandonedRun.after a).db.attempts.rows,
      row.outcome = some .abandoned := by
    decide +kernel
  exact nomatch (hall _ (Table.mem_of_get hrow')).symm.trans hout

end Jasil.Jobs
