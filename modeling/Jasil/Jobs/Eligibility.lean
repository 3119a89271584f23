import Jasil.Jobs.Claiming

/-! # Which jobs a claim takes
A call of `claim_jobs` selects jobs that are pending, due and in its queues. Its update, some steps
later, asks of each only that it is pending. In between the job may have run under another claim, and
have been put back to `pending` for a later instant.

* **`Claiming.Selected`**: a job that a call selected is in the queues of the call, and is due whenever
  it is pending. A step keeps this as long as what it puts back is due for the calls that selected it
  (`PutsBackDue`).
* **`claim_eligibility`**: in a run of such steps every job a call takes was due, and in its queues.

The compare-and-set keeps a job from being claimed twice at once; it does not keep it from being
claimed before its time (`claim_eligibility_not_after_failure`). -/

namespace Jasil.Jobs

/-! ## What steps leave alone -/

/-- No call moves a job to another queue or subscriber. -/
theorem RowStep.queue_eq {c : Call} {j j' : ProcessingJob} (h : RowStep c j j') :
    j'.queue = j.queue ∧ j'.subscriberId = j.subscriberId := by
  cases h with
  | settle _ hset => cases hset <;> exact ⟨rfl, rfl⟩
  | _ => exact ⟨rfl, rfl⟩

/-- A job that stays pending keeps its instant. -/
theorem RowStep.availableAt_eq {c : Call} {j j' : ProcessingJob} (h : RowStep c j j')
    (hs : j.status = .pending) (hs' : j'.status = .pending) : j'.availableAt = j.availableAt := by
  cases h with
  | keep | renew _ | claimCallback _ | notified _ | deferCallback _ | releaseCallback _ => rfl
  | claim _ | claimSelected _ | expireLast _ _ => exact nomatch hs'
  | release hh => exact nomatch hs.symm.trans hh.2.1
  | settle ho _ => exact nomatch hs.symm.trans ho.2.1
  | expireRequeue he _ => exact nomatch hs.symm.trans he.1
  | replay hd => exact nomatch hs.symm.trans hd

/-- The queue part of a claim reads the queue and the subscriber of a job only. -/
theorem ClaimRequest.queueFilter_congr {r : ClaimRequest} {selected : Option (List String)}
    {j j' : ProcessingJob} (hq : j'.queue = j.queue) (hsub : j'.subscriberId = j.subscriberId) :
    r.QueueFilter selected j' ↔ r.QueueFilter selected j := by
  unfold ClaimRequest.QueueFilter
  rw [hq, hsub]

/-! ## What a call selected -/

/-- **The job is one the call may take**: in its queues, and due whenever it is pending. -/
def Claiming.Selected (db : Db) (call : ClaimCall) (id : JobId) : Prop :=
  ∃ j, db.jobs.get id = some j ∧ call.request.QueueFilter call.selected j ∧
    (j.status = .pending → j.availableAt ≤ call.request.now)

/-- The call on the tables that is no step of `claim_jobs`. -/
def Claiming.Step.other? : Claiming.Step → Option Call
  | .other c => some c
  | _ => none

/-- Whatever a call on the tables puts back to `pending` is due for every call that has selected it
and has not committed. -/
def Claiming.PutsBackDue (s : Claiming) : Claiming.Step → Prop
  | .other c => ∀ w call phase, s.flying w = some (call, phase) → ∀ id ∈ phase.held, ∀ j j',
      s.db.jobs.get id = some j → (c.run s.db).jobs.get id = some j' → j.status ≠ .pending →
        j'.status = .pending → j'.availableAt ≤ call.request.now
  | _ => True

/-- One call keeps a selected job selected, if it does not put it back for later. -/
theorem Claiming.Selected.run {db : Db} {call : ClaimCall} {id : JobId}
    (h : Claiming.Selected db call id) {c : Call}
    (hback : ∀ j j', db.jobs.get id = some j → (c.run db).jobs.get id = some j' →
      j.status ≠ .pending → j'.status = .pending → j'.availableAt ≤ call.request.now) :
    Claiming.Selected (c.run db) call id := by
  obtain ⟨j, hj, hqueue, hdue⟩ := h
  obtain ⟨j', hj', hrow⟩ := run_get_some c hj
  refine ⟨j', hj', ?_, fun hs' => ?_⟩
  · exact (ClaimRequest.queueFilter_congr hrow.queue_eq.1 hrow.queue_eq.2).mpr hqueue
  · by_cases hs : j.status = .pending
    · rw [hrow.availableAt_eq hs hs']
      exact hdue hs
    · exact hback j j' hj hj' hs hs'

/-- A claim puts nothing back. -/
theorem Claiming.Selected.update {db : Db} {call : ClaimCall} {id : JobId}
    (h : Claiming.Selected db call id) (r : ClaimRequest) (jobIds : List JobId)
    (mint : JobId → AttemptId) :
    Claiming.Selected ((Call.claimSelected r jobIds mint).run db) call id := by
  refine h.run fun j j' hj hj' hs hs' => ?_
  rw [Call.run, get_claimUpdate, hj, Option.map_some] at hj'
  obtain rfl := Option.some.inj hj'
  split at hs'
  · cases hs'
  · exact absurd hs' hs

/-- **Everything the calls under way have selected, they may take.** -/
def Claiming.AllSelected (s : Claiming) : Prop :=
  ∀ w call phase, s.flying w = some (call, phase) → ∀ id ∈ phase.held,
    Claiming.Selected s.db call id

/-- The calls under way when one of them goes on. -/
theorem Claiming.AllSelected.enter {s : Claiming} (h : s.AllSelected) {w : WorkerId}
    {call : ClaimCall} {phase : Phase}
    (hheld : ∀ id ∈ phase.held, Claiming.Selected s.db call id) :
    (s.enter w call phase).AllSelected := by
  intro w' call' phase' hf
  simp only [Claiming.enter, Function.update_apply] at hf
  split at hf
  · obtain ⟨rfl, rfl⟩ := Prod.mk.inj (Option.some.inj hf)
    exact hheld
  · exact h w' call' phase' hf

/-- It is kept when a call ends. -/
theorem Claiming.AllSelected.leave {s : Claiming} (h : s.AllSelected) (w : WorkerId) :
    (s.leave w).AllSelected := by
  intro w' call' phase' hf
  simp only [Claiming.leave, Function.update_apply] at hf
  split at hf
  · cases hf
  · exact h w' call' phase' hf

/-- **A step that puts back nothing for later keeps them so.** -/
theorem Claiming.AllSelected.step {s s' : Claiming} {a : Claiming.Step} (h : s.AllSelected)
    (hback : s.PutsBackDue a) (hs : s.step a = some s') : s'.AllSelected := by
  cases a with
  | begin r mint =>
    rw [Claiming.step] at hs
    split at hs
    · cases hs
    · split at hs
      · obtain rfl := Option.some.inj hs
        exact Claiming.AllSelected.enter (s := { s with begun := s.begun ++ [_] }) h (by rintro _ ⟨⟩)
      · obtain rfl := Option.some.inj hs
        exact h
  | scan w locked =>
    rw [Claiming.step] at hs
    split at hs
    case h_1 call jobIds hf =>
      have hold := h w call _ hf
      obtain rfl := Option.some.inj hs
      exact h.enter hold
    case h_2 call jobIds bounds ranges hf =>
      have hold := h w call _ hf
      dsimp only at hs
      split at hs
      · obtain rfl := Option.some.inj hs
        exact h.enter hold
      · obtain rfl := Option.some.inj hs
        -- what earlier scans selected, and what this one adds
        refine h.enter fun id hid => ?_
        rcases List.mem_append.mp hid with hid | hid
        · exact hold id hid
        · obtain ⟨-, j, hj, -, hdue, hqueue⟩ := mem_scanRange hid
          exact ⟨j, hj, hqueue, fun _ => hdue⟩
    case h_3 => cases hs
  | update w =>
    rw [Claiming.step] at hs
    split at hs
    case h_1 call jobIds hf =>
      split at hs
      · obtain rfl := Option.some.inj hs
        exact h.leave w
      · obtain rfl := Option.some.inj hs
        refine Claiming.AllSelected.enter (fun w' call' phase' hf' id hid => ?_) (by rintro _ ⟨⟩)
        -- the update of one call under the selection of the others
        exact (h w' call' phase' hf' id hid).update call.request jobIds call.mint
    case h_2 => cases hs
  | readBack w =>
    rw [Claiming.step] at hs
    split at hs
    case h_1 =>
      obtain rfl := Option.some.inj hs
      exact h.leave w
    case h_2 => cases hs
  | abort w =>
    rw [Claiming.step] at hs
    split at hs
    case h_1 =>
      obtain rfl := Option.some.inj hs
      exact h.leave w
    case h_2 => cases hs
  | other c =>
    obtain rfl := Option.some.inj hs
    exact fun w call phase hf id hid =>
      (h w call phase hf id hid).run (hback w call phase hf id hid)

/-- The steps of the runs in which no job is put back for later under a call that selected it. -/
def Claiming.OkDue (s : Claiming) (a : Claiming.Step) : Prop :=
  Claiming.Ok false s a ∧ s.PutsBackDue a

/-- It holds in every run whose steps meet the condition. -/
theorem Claiming.allSelected_of_reaches {s : Claiming}
    (h : Reaches Claiming.step Claiming.OkDue Claiming.init s) : s.AllSelected := by
  refine h.invariant Claiming.AllSelected (fun _ _ _ hf => nomatch hf) ?_
  intro s a s' _ ih hok hs
  exact ih.step hok.2 hs

/-! ## Eligibility -/

/-- A transition to `claimed` is the update of a call that selected the job. -/
theorem Claiming.step_claims {s s' : Claiming} {a : Claiming.Step} (hok : Claiming.Ok false s a)
    (hs : s.step a = some s') {id : JobId} {j j' : ProcessingJob} (hj : s.db.jobs.get id = some j)
    (hj' : s'.db.jobs.get id = some j') (hp : j.status = .pending) (hc : j'.status = .claimed) :
    ∃ w call jobIds, a = .update w ∧ s.flying w = some (call, .selected jobIds) ∧ id ∈ jobIds := by
  -- the job went from pending to claimed, so the step wrote
  have hsame (h : s'.db = s.db) : False := by
    rw [h, hj] at hj'
    obtain rfl := Option.some.inj hj'
    cases hp.symm.trans hc
  cases a with
  | update w =>
    rw [Claiming.step] at hs
    split at hs
    case h_1 call jobIds hf =>
      split at hs
      · obtain rfl := Option.some.inj hs
        exact (hsame rfl).elim
      · obtain rfl := Option.some.inj hs
        obtain ⟨j₀, hj₀, ht⟩ := mem_newlyClaimed_update.mp
          (mem_newlyClaimed.mpr ⟨j, j', hj, hj', hp, hc⟩)
        exact ⟨w, call, jobIds, rfl, hf, Table.key_of_get hj₀ ▸ ht.1⟩
    case h_2 => cases hs
  | other c =>
    obtain rfl := Option.some.inj hs
    obtain ⟨j₁, hj₁, hrow⟩ := run_get_some c hj
    obtain rfl := Option.some.inj (hj₁.symm.trans hj')
    -- the other operations claim nothing
    have hok : c.isClaim = false := hok
    cases hok.symm.trans (hrow.isClaim (by rw [hp]; rintro ⟨⟩) hc)
  | begin r mint =>
    rw [Claiming.step] at hs
    split at hs
    · cases hs
    · split at hs
      · obtain rfl := Option.some.inj hs
        exact (hsame rfl).elim
      · obtain rfl := Option.some.inj hs
        exact (hsame rfl).elim
  | scan w locked =>
    rw [Claiming.step] at hs
    split at hs
    · obtain rfl := Option.some.inj hs
      exact (hsame rfl).elim
    · dsimp only at hs
      split at hs
      · obtain rfl := Option.some.inj hs
        exact (hsame rfl).elim
      · obtain rfl := Option.some.inj hs
        exact (hsame rfl).elim
    · cases hs
  | readBack w | abort w =>
    rw [Claiming.step] at hs
    split at hs
    · obtain rfl := Option.some.inj hs
      exact (hsame rfl).elim
    · cases hs

/-- **Claim eligibility.** On a database without row locks, in a run none of whose steps puts a job
back to `pending` for later than the `now` of a call that has selected it and has not committed:
every job that goes from `pending` to `claimed` goes there by the update of a call, and was due and in
the queues of that call. -/
theorem claim_eligibility {s s' : Claiming} {a : Claiming.Step}
    (h : Reaches Claiming.step Claiming.OkDue Claiming.init s) (hok : s.OkDue a)
    (hs : s.step a = some s') {id : JobId} {j j' : ProcessingJob} (hj : s.db.jobs.get id = some j)
    (hj' : s'.db.jobs.get id = some j') (hp : j.status = .pending) (hc : j'.status = .claimed) :
    ∃ w call jobIds, a = .update w ∧ s.flying w = some (call, .selected jobIds) ∧
      call.request.Due call.selected j := by
  obtain ⟨w, call, jobIds, rfl, hf, hid⟩ := Claiming.step_claims hok.1 hs hj hj' hp hc
  obtain ⟨j₀, hj₀, hqueue, hdue⟩ := Claiming.allSelected_of_reaches h w call _ hf id hid
  obtain rfl := Option.some.inj (hj₀.symm.trans hj)
  exact ⟨w, call, jobIds, rfl, hf, hp, hdue hp, hqueue⟩

/-- One job, enqueued. -/
def Claiming.enqueued : Claiming := Claiming.init.make none (sampleInsert 3)

/-- One worker has selected it. -/
def Claiming.selection : Claiming :=
  runTo Claiming.step (fun s a => Claiming.Ok false s a ∧ ∀ c ∈ a.other?, c.isClaim = true)
    Claiming.enqueued (Claiming.sampleSelect "first" 1 "a")

/-- The worker takes a job that is due. -/
theorem claim_eligibility_first :
    ∃ call jobIds j, Claiming.selection.flying "first" = some (call, .selected jobIds) ∧
      Claiming.selection.db.jobs.get "job" = some j ∧ call.request.Due call.selected j := by
  have hselect : Reaches Claiming.step
      (fun s a => Claiming.Ok false s a ∧ ∀ c ∈ a.other?, c.isClaim = true)
      Claiming.enqueued Claiming.selection :=
    reaches_runTo (by decide +kernel)
  -- no call is under way when the job is enqueued, and nothing else is done to the tables
  have hr : Reaches Claiming.step Claiming.OkDue Claiming.init Claiming.selection := by
    have hidle : Claiming.init.OkDue (.other (sampleInsert 3)) :=
      ⟨rfl, fun _ _ _ hf => nomatch hf⟩
    have henqueued : Reaches Claiming.step Claiming.OkDue Claiming.init Claiming.enqueued :=
      Reaches.refl.tail hidle rfl
    refine henqueued.trans (hselect.mono ?_)
    rintro s a ⟨hok, hother⟩
    refine ⟨hok, ?_⟩
    cases a with
    | other c =>
      have hok : c.isClaim = false := hok
      exact nomatch hok.symm.trans (hother c rfl)
    | _ => trivial
  have hok : Claiming.selection.OkDue (.update "first") := ⟨by decide +kernel, trivial⟩
  have hafter : ((Claiming.selection.step (.update "first")).bind fun s =>
      s.db.jobs.get "job").any (fun j => j.status == .claimed) = true := by
    decide +kernel
  have hbefore : (Claiming.selection.db.jobs.get "job").any (fun j =>
      j.status == .pending) = true := by
    decide +kernel
  obtain ⟨j', hj', hs'⟩ := (Option.any_eq_true _ _).mp hafter
  obtain ⟨s', hs, hj'⟩ := Option.bind_eq_some_iff.mp hj'
  obtain ⟨j, hj, hp⟩ := (Option.any_eq_true _ _).mp hbefore
  obtain ⟨w, call, jobIds, hw, hf, hdue⟩ :=
    claim_eligibility hr hok hs hj hj' (eq_of_beq hp) (eq_of_beq hs')
  obtain rfl := Claiming.Step.update.inj hw
  exact ⟨call, jobIds, j, hf, hj, hdue⟩

/-- Two workers select the same job, and the second takes it. -/
def Claiming.lateSteps : List Claiming.Step :=
  [Claiming.Step.other (sampleInsert 3)] ++ Claiming.sampleSelect "first" 1 "a" ++
    Claiming.sampleSelect "second" 2 "b" ++ [Claiming.Step.update "second", Claiming.Step.readBack "second"]

/-- The second worker's handler fails, and the job is put back for a minute later. -/
def Claiming.sampleFailure : Claiming.Step :=
  .other (.settle (.fail "boom" 60 3600 none) ⟨"job", "second", 1⟩ { now := 3 })

/-- The state in which the first worker still has to commit its claim. -/
def Claiming.backingOff : Claiming :=
  runTo Claiming.step (Claiming.Ok false) Claiming.init
    (Claiming.lateSteps ++ [Claiming.sampleFailure])

/-- **The first worker claims the job before its backoff is over.** -/
theorem claim_eligibility_not_after_failure :
    ¬ ∀ s s' a id j j', Reaches Claiming.step (Claiming.Ok false) Claiming.init s →
      Claiming.Ok false s a → s.step a = some s' → s.db.jobs.get id = some j →
      s'.db.jobs.get id = some j' → j.status = .pending → j'.status = .claimed →
      ∃ w call jobIds, a = .update w ∧ s.flying w = some (call, .selected jobIds) ∧
        call.request.Due call.selected j := by
  intro hclaim
  have hr : Reaches Claiming.step (Claiming.Ok false) Claiming.init Claiming.backingOff :=
    reaches_runTo (by decide +kernel)
  have hok : Claiming.Ok false Claiming.backingOff (.update "first") := by decide +kernel
  have hafter : ((Claiming.backingOff.step (.update "first")).bind fun s =>
      s.db.jobs.get "job").any (fun j => j.status == .claimed) = true := by
    decide +kernel
  have hbefore : (Claiming.backingOff.db.jobs.get "job").any (fun j =>
      j.status == .pending && decide (1 < j.availableAt)) = true := by
    decide +kernel
  have hnow : (Claiming.backingOff.flying "first").all (fun flight =>
      flight.1.request.now == 1) = true := by
    decide +kernel
  obtain ⟨j', hj', hs'⟩ := (Option.any_eq_true _ _).mp hafter
  obtain ⟨s', hs, hj'⟩ := Option.bind_eq_some_iff.mp hj'
  obtain ⟨j, hj, hp⟩ := (Option.any_eq_true _ _).mp hbefore
  obtain ⟨hp, hlater⟩ := Bool.and_eq_true_iff.mp hp
  obtain ⟨w, call, jobIds, hw, hf, -, hdue, -⟩ :=
    hclaim _ s' _ "job" j j' hr hok hs hj hj' (eq_of_beq hp) (eq_of_beq hs')
  obtain rfl := Claiming.Step.update.inj hw
  rw [hf] at hnow
  have hnow : call.request.now = 1 := eq_of_beq hnow
  rw [hnow] at hdue
  exact absurd (of_decide_eq_true hlater) (not_lt.mpr hdue)

end Jasil.Jobs
