import Mathlib.Tactic.Ring
import Jasil.Jobs.Ledger

/-! # Bounded work per job
How often a job can be claimed in a run without replays. Three counters move: a deferral refunds an
attempt, a continuation restarts the failure budget, a release undoes its claim. What bounds them
together is that a continuation can set aside at most one budget (`WithinLimits.offset`), so that a
job takes at most `D + (C + 1) · M` claims that were not released. -/

namespace Jasil.Jobs

/-- The call is no replay, and defers and continues under the limits `D` and `C`. -/
def Call.Limited (D C : ℕ) : Call → Prop
  | .replay .. => False
  | .settle (.defer _ _ maxDeferrals) _ _ => maxDeferrals = D
  | .settle (.continued _ _ maxContinuations) _ _ => maxContinuations = C
  | _ => True

/-- **What the limits hold a row to.** -/
structure WithinLimits (D C : ℕ) (j : ProcessingJob) : Prop where
  ceiling : 1 ≤ j.maxAttempts
  wellFormed : WellFormed j
  deferrals : j.deferrals ≤ D
  continuations : j.continuations ≤ C
  /-- Each continuation set at most one full budget aside. -/
  offset : j.budgetOffset ≤ j.continuations * j.maxAttempts

/-- A row within the limits has been claimed at most `D + (C + 1) · M` times, and that often only
once every counter stands at its limit. -/
theorem WithinLimits.attempts_le {D C : ℕ} {j : ProcessingJob} (h : WithinLimits D C j) :
    j.attempts ≤ D + (C + 1) * j.maxAttempts ∧
      (j.attempts = D + (C + 1) * j.maxAttempts →
        j.spent = j.maxAttempts ∧ j.deferrals = D ∧ j.continuations = C) := by
  have hspent : j.spent ≤ j.maxAttempts := by
    have hb := h.wellFormed.budget
    rw [WithinBudget] at hb
    split at hb <;> omega
  have hoff := h.offset
  have hdef := h.deferrals
  have hM := h.ceiling
  have hcont : j.continuations * j.maxAttempts ≤ C * j.maxAttempts :=
    mul_le_mul_of_nonneg_right h.continuations (by omega)
  have hring : ((C : ℤ) + 1) * j.maxAttempts = C * j.maxAttempts + j.maxAttempts := by ring
  rw [hring]
  simp only [ProcessingJob.spent] at hspent ⊢
  refine ⟨by omega, fun heq => ⟨by omega, by omega, ?_⟩⟩
  have hge : (C : ℤ) * j.maxAttempts ≤ j.continuations * j.maxAttempts := by omega
  exact le_antisymm h.continuations (le_of_mul_le_mul_right hge (by omega))

/-- A new job is within every limit. -/
theorem withinLimits_new {D C : ℕ} {c : Call} {j : ProcessingJob} (h : c.newRow = some j)
    (hmax : 1 ≤ j.maxAttempts) : WithinLimits D C j := by
  have hwf := wellFormed_newRow h hmax
  cases c with
  | insert event subscriberId queue maxAttempts now availableAt jobId =>
    obtain rfl := Option.some.inj h
    exact ⟨hmax, hwf, Int.natCast_nonneg D, Int.natCast_nonneg C, by simp [newJob]⟩
  | _ => cases h

/-- **One call keeps a row within the limits.** -/
theorem RowStep.withinLimits {D C : ℕ} {c : Call} {j j' : ProcessingJob} (hrow : RowStep c j j')
    (hc : c.Limited D C) (h : WithinLimits D C j) : WithinLimits D C j' := by
  have hmax := hrow.maxAttempts_eq
  have hwf := hrow.wellFormed h.ceiling h.wellFormed
  -- all but a deferral and a continuation leave the three counters alone
  have hsame (hdef : j'.deferrals = j.deferrals) (hcont : j'.continuations = j.continuations)
      (hoff : j'.budgetOffset = j.budgetOffset) : WithinLimits D C j' := by
    refine ⟨hmax ▸ h.ceiling, hwf, hdef ▸ h.deferrals, hcont ▸ h.continuations, ?_⟩
    rw [hoff, hcont, hmax]
    exact h.offset
  cases hrow with
  | settle ho hset =>
    cases hset with
    | defer hlt =>
      obtain rfl : _ = (D : ℤ) := hc
      exact ⟨h.ceiling, hwf, hlt, h.continuations, h.offset⟩
    | continued hlt =>
      obtain rfl : _ = (C : ℤ) := hc
      have hspent := (h.wellFormed.spent_claimed ho.2.1).2
      have hoff := h.offset
      refine ⟨h.ceiling, hwf, h.deferrals, hlt, ?_⟩
      simp only [ProcessingJob.continued, ProcessingJob.spent] at hspent ⊢
      have hring : (j.continuations + 1) * j.maxAttempts =
          j.continuations * j.maxAttempts + j.maxAttempts := by ring
      omega
    | _ => exact hsame rfl rfl rfl
  | replay _ => exact absurd hc id
  | _ => exact hsame rfl rfl rfl

/-! ## Every run -/

/-- Without a replay, what the onlooker sees starts no epoch. -/
theorem Recorded.epoch_after {D C : ℕ} {s : Recorded} {c : Call} (hc : c.Limited D C) (id : JobId)
    (hsync : InSync (s.db.jobs.get id) (s.claims id)) :
    ((s.after c).claims id).epoch = (s.claims id).epoch := by
  simp only [Recorded.after]
  cases hj : s.db.jobs.get id with
  | none => rfl
  | some j =>
    obtain ⟨j', hj', hrow⟩ := run_get_some c hj
    rw [hj'] at *
    rw [hj] at hsync
    have hseen := hsync.observed hrow (openedRows s.db (c.run s.db) id)
    generalize observeRow c.isRelease _ (some j) (some j') (s.claims id) = log' at hseen ⊢
    cases hseen with
    | same _ _ => rfl
    | claimed _ _ _ => rfl
    | released _ _ _ _ _ => rfl
    | replayed hd hp _ =>
      rcases hrow.of_deadLetter hd with hd' | ⟨_, _, rfl⟩
      · simp [hp] at hd'
      · exact (hc : False).elim

/-- **What holds of every row in every run under the limits.** -/
theorem Recorded.withinLimits_of_reaches {D C : ℕ} {s : Recorded}
    (h : Reaches Recorded.step (fun _ c => c.Limited D C) Recorded.init s) (id : JobId) :
    (s.claims id).epoch = 0 ∧
      ∀ j, s.db.jobs.get id = some j → 1 ≤ j.maxAttempts → WithinLimits D C j := by
  refine h.invariant (fun s => ∀ id, (s.claims id).epoch = 0 ∧
    ∀ j, s.db.jobs.get id = some j → 1 ≤ j.maxAttempts → WithinLimits D C j)
    (fun id => ⟨rfl, fun j hj => nomatch (get_init id).symm.trans hj⟩) ?_ id
  intro s c s' hr ih hc hstep id
  obtain rfl := Option.some.inj hstep
  refine ⟨(epoch_after hc id (inSync_of_reaches hr id)).trans (ih id).1, fun j' hj' hmax => ?_⟩
  rcases run_get c hj' with ⟨-, hnew⟩ | ⟨j, hj, hrow⟩
  · exact withinLimits_new hnew hmax
  · exact hrow.withinLimits hc ((ih id).2 j hj (hrow.maxAttempts_eq ▸ hmax))

/-- The number of claims of a job that were not released. -/
def Recorded.unreleased (s : Recorded) (id : JobId) : ℕ := (s.claims id).unrevoked.length

/-- A claimed row whose counters all stand at their limits stays under its claim, or ends, or is
released. -/
theorem RowStep.of_spent {D C : ℕ} {c : Call} {j j' : ProcessingJob} (h : RowStep c j j')
    (hc : c.Limited D C) (hs : j.status = .claimed) (hspent : j.spent = j.maxAttempts)
    (hdef : j.deferrals = D) (hcont : j.continuations = C) :
    j'.status = .claimed ∨ j'.status = .completed ∨ j'.status = .deadLetter ∨
      (c.isRelease = true ∧ ∃ now, j' = j.release now) := by
  cases h with
  | claim hp => simp [hs] at hp
  | claimSelected _ => exact Or.inl rfl
  | release _ => exact Or.inr (Or.inr (Or.inr ⟨rfl, _, rfl⟩))
  | settle _ hset =>
    cases hset with
    | complete => exact Or.inr (Or.inl rfl)
    | failLast _ => exact Or.inr (Or.inr (Or.inl rfl))
    | failRetry hleft => exact absurd hleft (by omega)
    | deferExhausted _ => exact Or.inl hs
    | defer hlt =>
      obtain rfl : _ = (D : ℤ) := hc
      omega
    | continueExhausted _ => exact Or.inl hs
    | continued hlt =>
      obtain rfl : _ = (C : ℤ) := hc
      omega
  | expireLast _ _ => exact Or.inr (Or.inr (Or.inl rfl))
  | expireRequeue _ hleft => exact absurd hleft (by omega)
  | replay hd => simp [hs] at hd
  | _ => exact Or.inl hs

/-- **Bounded work per job**: in a run without replays under the limits `D` and `C`, a job with
ceiling `M` has at most `D + (C + 1) · M` claims that were not released, and the call that next
changes the status of a job claimed that often completes it, dead-letters it or releases it. -/
theorem bounded_work {D C : ℕ} {s : Recorded}
    (h : Reaches Recorded.step (fun _ c => c.Limited D C) Recorded.init s) {id : JobId}
    {j : ProcessingJob} (hj : s.db.jobs.get id = some j) (hM : 1 ≤ j.maxAttempts) :
    (s.unreleased id : ℤ) ≤ D + (C + 1) * j.maxAttempts ∧
      (j.status = .claimed → (s.unreleased id : ℤ) = D + (C + 1) * j.maxAttempts →
        ∀ c : Call, c.Limited D C → ∀ j', (s.after c).db.jobs.get id = some j' →
          (j'.status = .claimed ∧ (s.after c).claims id = s.claims id) ∨
            j'.status = .completed ∨ j'.status = .deadLetter ∨
            (c.isRelease = true ∧ ∃ now, j' = j.release now)) := by
  obtain ⟨hepoch, hlimits⟩ := Recorded.withinLimits_of_reaches h id
  have hsync := Recorded.inSync_of_reaches h id
  rw [hj] at hsync
  have hcount : (s.unreleased id : ℤ) = j.attempts := hsync.1.length_unrevoked hepoch
  obtain ⟨hle, hmax⟩ := (hlimits j hj hM).attempts_le
  rw [hcount]
  refine ⟨hle, fun hs heq c hc j' hj' => ?_⟩
  obtain ⟨hspent, hdef, hcont⟩ := hmax heq
  obtain ⟨j'', hj'', hrow⟩ := run_get_some c hj
  obtain rfl := Option.some.inj (hj''.symm.trans hj')
  rcases hrow.of_spent hc hs hspent hdef hcont with hs' | hrest
  · refine Or.inl ⟨hs', ?_⟩
    simp only [Recorded.after, hj, hj'', observeRow, hs, hs']
  · exact Or.inr hrest

instance decidableLimited (D C : ℕ) : (c : Call) → Decidable (c.Limited D C)
  | .replay .. => inferInstanceAs (Decidable False)
  | .settle (.defer _ _ _) _ _ | .settle (.continued _ _ _) _ _ => inferInstanceAs (Decidable (_ = _))
  | .settle .complete _ _ | .settle (.fail ..) _ _ | .insert .. | .claim .. | .claimSelected .. | .renew ..
  | .release .. | .reclaim .. | .close .. | .markStarted .. | .claimCallbacks .. | .markNotified ..
  | .deferCallback .. | .releaseCallback .. => inferInstanceAs (Decidable True)

/-- A job with two tries: it defers, fails, continues, and its worker crashes; then it is claimed again. -/
def boundedCalls : List Call :=
  [sampleInsert 2,
    sampleClaim "first" 1 "a", .settle (.defer "later" 2 1) ⟨"job", "first", 1⟩ { now := 2 },
    sampleClaim "first" 3 "b", .settle (.fail "boom" 1 60 none) ⟨"job", "first", 2⟩ { now := 4 },
    sampleClaim "first" 2000000 "c",
    .settle (.continued "more" 2000002 1) ⟨"job", "first", 3⟩ { now := 2000001 },
    sampleClaim "first" 2000003 "d", .reclaim 100000000 10 ["job"],
    sampleClaim "second" 100000001 "e"]

/-- The job's record after that. -/
def bounded : Recorded :=
  runTo Recorded.step (fun _ c => c.Limited 1 1) Recorded.init boundedCalls

/-- With one deferral and one continuation, the job is at its bound with its fifth claim. -/
theorem bounded_work_bounded :
    ∃ j, bounded.db.jobs.get "job" = some j ∧ j.status = .claimed ∧
      (bounded.unreleased "job" : ℤ) = (1 : ℕ) + ((1 : ℕ) + 1) * j.maxAttempts ∧
      ∀ c : Call, c.Limited 1 1 → ∀ j', (bounded.after c).db.jobs.get "job" = some j' →
        (j'.status = .claimed ∧ (bounded.after c).claims "job" = bounded.claims "job") ∨
          j'.status = .completed ∨ j'.status = .deadLetter ∨
          (c.isRelease = true ∧ ∃ now, j' = j.release now) := by
  have hr : Reaches Recorded.step (fun _ c => c.Limited 1 1) Recorded.init bounded :=
    reaches_runTo (by decide +kernel)
  have hrow : (bounded.db.jobs.get "job").map (fun j => (j.status, j.maxAttempts)) = some (.claimed, 2) := by
    decide +kernel
  have hclaims : bounded.unreleased "job" = 5 := by decide +kernel
  obtain ⟨j, hj, hread⟩ := Option.map_eq_some_iff.mp hrow
  obtain ⟨hstatus, hmax⟩ := Prod.mk.inj hread
  have hbound : (bounded.unreleased "job" : ℤ) = (1 : ℕ) + ((1 : ℕ) + 1) * j.maxAttempts := by
    rw [hclaims, hmax]
    rfl
  exact ⟨j, hj, hstatus, hbound, (bounded_work hr hj (by rw [hmax]; decide)).2 hstatus hbound⟩

end Jasil.Jobs
