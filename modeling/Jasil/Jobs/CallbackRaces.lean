import Mathlib.Logic.Function.Basic
import Jasil.Jobs.Envelopes

/-! # Claiming callbacks step by step
A call of `claim_dead_letter_callbacks` selects rows without locking them, and then claims them one by one with
a compare-and-set. The compare-and-set sees the delivery count, the status and the due time, which are what
they were once the job was replayed and has dead-lettered again.

* **`Delivering`**: the tables with the calls under way, and which jobs were replayed under them.
* **`Faithful`**: what a call returns is the dead letter it claimed.
* **`faithful_iff`**: it is, unless the job was replayed between the selection and the compare-and-set. -/

namespace Jasil.Jobs

/-- A call of `claim_dead_letter_callbacks` between two of its steps. -/
structure CallbackFlight where
  request : CallbackRequest
  /-- The rows selected and not yet claimed, as they were. -/
  rows : List ProcessingJob
  jobs : List DeadLetterJob
  /-- The jobs that an onlooker saw replayed since the selection. -/
  replayed : List JobId

/-- The tables, with the calls under way. -/
structure Delivering where
  db : Db
  flying : ℕ → Option CallbackFlight

/-- What can happen next. -/
inductive CallbackStep
  /-- A call begins with its selection. -/
  | select (p : ℕ) (r : CallbackRequest)
  /-- The compare-and-set of the next row. -/
  | claimNext (p : ℕ)
  /-- The call returns, or its process dies. -/
  | leave (p : ℕ)
  /-- Any other call, by anyone. -/
  | other (c : Call)

/-- The call is under way when the other call is made; a replay of a dead letter is noted. -/
def CallbackFlight.note (f : CallbackFlight) (db : Db) : Call → CallbackFlight
  | .replay id _ =>
    if ∃ j ∈ db.jobs.rows, DeadLettered id j then { f with replayed := id :: f.replayed } else f
  | _ => f

namespace Delivering

/-- No sweep yet. -/
def init : Delivering := ⟨Db.empty, fun _ => none⟩

/-- Take one step. -/
def step (s : Delivering) : CallbackStep → Option Delivering
  | .select p r =>
    match s.flying p with
    | some _ => none
    | none =>
      let rows := if r.subscriberIds.isEmpty then [] else callbackRows s.db r
      some { s with flying := Function.update s.flying p (some ⟨r, rows, [], []⟩) }
  | .claimNext p =>
    match s.flying p with
    | some ⟨r, row :: rows, jobs, replayed⟩ =>
      let (jobs, table) := claimCallbackRow r row (jobs, s.db.jobs)
      some {
        db := { s.db with jobs := table }
        flying := Function.update s.flying p (some ⟨r, rows, jobs, replayed⟩) }
    | _ => none
  | .leave p =>
    match s.flying p with
    | some _ => some { s with flying := Function.update s.flying p none }
    | none => none
  | .other c => some ⟨c.run s.db, fun p => (s.flying p).map fun f => f.note s.db c⟩

/-- **Different dead letters of a job have different instants**: what makes a job a dead letter dates it
otherwise than the dead letter of the job that a call under way has selected. -/
def DatedApart (s : Delivering) : CallbackStep → Prop
  | .other c => ∀ p, ∀ f ∈ s.flying p, ∀ row ∈ f.rows, ∀ j ∈ s.db.jobs.get row.id,
      ∀ j' ∈ (c.run s.db).jobs.get row.id, j.status ≠ .deadLetter → j'.status = .deadLetter →
        j'.completedAt ≠ row.completedAt
  | _ => True

end Delivering

/-! ## What a call returns -/

/-- The claim is live: the job is a dead letter that nobody was notified of, with the claim's count. -/
def KeepsLive (d : DeadLetterJob) (db : Db) (c : Call) : Prop :=
  ∀ j ∈ (c.run db).jobs.get d.id, j.status = .deadLetter ∧ j.deadLetterNotifiedAt = none
    ∧ j.deadLetterAttempts = d.deliveryAttempt

/-- **What a call returns is the dead letter it claimed**: its event, its error and its instant are those of
the row, and while the claim is live an outcome write succeeds. -/
structure Faithful (db : Db) (d : DeadLetterJob) : Prop where
  row : ∃ j, db.jobs.get d.id = some j ∧ d.event = eventFromRow j ∧ d.lastError = j.lastError
    ∧ d.deadAt = j.completedAt ∧ j.deadLetterAttempts = d.deliveryAttempt
  live : ∀ db', Reaches Call.step (KeepsLive d) db db' → ∀ write, (updateDeadLetter db' d write).1 = true

/-- The dead letter is the one that was selected. -/
structure SameDeadLetter (row j : ProcessingJob) : Prop where
  deadLetter : j.status = .deadLetter
  event : eventFromRow j = eventFromRow row
  lastError : j.lastError = row.lastError
  completedAt : j.completedAt = row.completedAt

/-- While a job stays a dead letter, its error and its instant stay the same. -/
theorem RowStep.deadLetter_eq {c : Call} {j j' : ProcessingJob} (h : RowStep c j j')
    (hs : j.status = .deadLetter) (hs' : j'.status = .deadLetter) :
    j'.lastError = j.lastError ∧ j'.completedAt = j.completedAt := by
  cases h with
  | keep | renew | claimCallback | notified | deferCallback | releaseCallback => exact ⟨rfl, rfl⟩
  | claim | claimSelected | release | expireRequeue | replay => exact nomatch hs'
  | expireLast he _ => exact nomatch hs.symm.trans he.1
  | settle ho hset => exact nomatch hs.symm.trans ho.2.1

/-- A dead letter that is still one after a write is the same. -/
theorem SameDeadLetter.step {c : Call} {row j j' : ProcessingJob} (h : SameDeadLetter row j)
    (hrow : RowStep c j j') (hs' : j'.status = .deadLetter) : SameDeadLetter row j' := by
  obtain ⟨herror, hcompleted⟩ := hrow.deadLetter_eq h.deadLetter hs'
  refine ⟨hs', ?_, herror.trans h.lastError, hcompleted.trans h.completedAt⟩
  exact (hrow.event_eq (.inr h.deadLetter) (.inr hs')).trans h.event

/-- An outcome write finds the live claim. -/
theorem updateDeadLetter_of_live {db : Db} {d : DeadLetterJob} {j : ProcessingJob}
    (hj : db.jobs.get d.id = some j) (hlive : LiveDelivery d j) (write : RowWrite) :
    (updateDeadLetter db d write).1 = true := by
  have hcount : db.jobs.rowcount (LiveDelivery d) = 1 :=
    (Table.rowcount_eq_one_iff fun _ hl => hl.1).mpr ⟨j, hj, hlive⟩
  rw [updateDeadLetter, hcount]
  rfl

/-- A live claim of the right dead letter stays one. -/
theorem live_of_reaches {db db' : Db} {d : DeadLetterJob} {j : ProcessingJob}
    (hj : db.jobs.get d.id = some j) (hlive : LiveDelivery d j)
    (h : Reaches Call.step (KeepsLive d) db db') :
    ∃ j', db'.jobs.get d.id = some j' ∧ LiveDelivery d j' := by
  refine h.invariant (fun db' => ∃ j', db'.jobs.get d.id = some j' ∧ LiveDelivery d j') ⟨j, hj, hlive⟩ ?_
  rintro db' c db'' - ⟨j', hj', hlive'⟩ hok hstep
  obtain rfl := Option.some.inj hstep
  obtain ⟨j'', hj'', hrow⟩ := run_get_some c hj'
  obtain ⟨hs'', hnotified, htoken⟩ := hok j'' hj''
  have hcompleted := (hrow.deadLetter_eq hlive'.2.1 hs'').2
  exact ⟨j'', hj'', Table.key_of_get hj'', hs'', hnotified, htoken,
    hcompleted.trans hlive'.2.2.2.2⟩

/-! ## What a call under way knows -/

/-- A selected row is still the job's dead letter, unless the job was replayed since. -/
structure StillSelected (db : Db) (replayed : List JobId) (row : ProcessingJob) : Prop where
  same : row.id ∉ replayed → ∃ j, db.jobs.get row.id = some j ∧ SameDeadLetter row j
  other : row.id ∈ replayed → ∀ j ∈ db.jobs.get row.id, j.status = .deadLetter →
    j.completedAt ≠ row.completedAt

/-- Everything the calls under way have selected. -/
def Delivering.Inv (s : Delivering) : Prop :=
  ∀ p, ∀ f ∈ s.flying p, ∀ row ∈ f.rows, StillSelected s.db f.replayed row

section Steps

variable {s s' : Delivering} {db : Db} {replayed : List JobId} {row : ProcessingJob}

/-- A row stands as it was selected. -/
theorem stillSelected_select {r : CallbackRequest} (h : row ∈ callbackRows db r) :
    StillSelected db [] row := by
  obtain ⟨hget, hselects⟩ := mem_callbackRows h
  exact ⟨fun _ => ⟨row, hget, hselects.1.1, rfl, rfl, rfl⟩, fun hin => absurd hin List.not_mem_nil⟩

/-- A claim of its callback leaves the dead letter. -/
theorem sameDeadLetter_claimCallback {j : ProcessingJob} {leaseUntil : Instant} {deliveries : ℤ}
    (h : SameDeadLetter row j) : SameDeadLetter row (j.claimCallback leaseUntil deliveries) :=
  ⟨h.deadLetter, h.event, h.lastError, h.completedAt⟩

/-- The table after one compare-and-set. -/
theorem get_claimCallbackRow (r : CallbackRequest) (row : ProcessingJob) (jobs : List DeadLetterJob)
    (table : Table ProcessingJob.id) (id : JobId) :
    (claimCallbackRow r row (jobs, table)).2.get id = (table.get id).map fun j =>
      if CallbackClaimable row r.now j then
        j.claimCallback (r.now + timedelta r.leaseSeconds) (row.deadLetterAttempts + 1)
      else j := by
  rw [claimCallbackRow]
  dsimp only
  rw [Table.get_update]

/-- A compare-and-set leaves what the calls have selected as it is. -/
theorem StillSelected.claimNext (h : StillSelected db replayed row) (r : CallbackRequest)
    (claimed : ProcessingJob) (jobs : List DeadLetterJob) :
    StillSelected { db with jobs := (claimCallbackRow r claimed (jobs, db.jobs)).2 } replayed row := by
  refine ⟨fun hnot => ?_, fun hin j' hj' hs' => ?_⟩
  · obtain ⟨j, hj, hsame⟩ := h.same hnot
    refine ⟨_, by rw [get_claimCallbackRow, hj, Option.map_some], ?_⟩
    split
    · exact sameDeadLetter_claimCallback hsame
    · exact hsame
  · rw [get_claimCallbackRow] at hj'
    obtain ⟨j, hj, rfl⟩ := Option.map_eq_some_iff.mp hj'
    split at hs'
    · rename_i hclaimable
      rw [if_pos hclaimable]
      exact h.other hin j hj hs'
    · rename_i hnot
      rw [if_neg hnot]
      exact h.other hin j hj hs'

/-- A replay of the row's dead letter is noted. -/
theorem mem_note {f : CallbackFlight} {c : Call} {id : JobId} :
    id ∈ (f.note db c).replayed ↔
      id ∈ f.replayed ∨ ∃ now, c = .replay id now ∧ ∃ j ∈ db.jobs.rows, DeadLettered id j := by
  cases c with
  | replay id' now =>
    simp only [CallbackFlight.note]
    by_cases hdead : ∃ j ∈ db.jobs.rows, DeadLettered id' j
    · rw [if_pos hdead, List.mem_cons]
      constructor
      · rintro (rfl | hin)
        · exact .inr ⟨now, rfl, hdead⟩
        · exact .inl hin
      · rintro (hin | ⟨_, hreplay, -⟩)
        · exact .inr hin
        · obtain ⟨rfl, -⟩ := Call.replay.inj hreplay
          exact .inl rfl
    · rw [if_neg hdead]
      constructor
      · exact .inl
      · rintro (hin | ⟨_, hreplay, hdead'⟩)
        · exact hin
        · obtain ⟨rfl, -⟩ := Call.replay.inj hreplay
          exact absurd hdead' hdead
  | _ => exact ⟨.inl, fun h => h.resolve_right fun ⟨_, hreplay, _⟩ => nomatch hreplay⟩

/-- Taking note of a call changes no row that was selected. -/
theorem rows_note (f : CallbackFlight) (db : Db) (c : Call) : (f.note db c).rows = f.rows := by
  cases c with
  | replay id now =>
    simp only [CallbackFlight.note]
    split <;> rfl
  | _ => rfl

/-- **Any other call** keeps a selected dead letter, or replays it and is noted. -/
theorem StillSelected.after_other {f : CallbackFlight} (h : StillSelected db f.replayed row) {c : Call}
    (hapart : ∀ j ∈ db.jobs.get row.id, ∀ j' ∈ (c.run db).jobs.get row.id, j.status ≠ .deadLetter →
      j'.status = .deadLetter → j'.completedAt ≠ row.completedAt) :
    StillSelected (c.run db) (f.note db c).replayed row := by
  constructor
  · intro hnot
    rw [mem_note, not_or] at hnot
    obtain ⟨j, hj, hsame⟩ := h.same hnot.1
    obtain ⟨j', hj', hrow⟩ := run_get_some c hj
    refine ⟨j', hj', hsame.step hrow ?_⟩
    rcases hrow.of_deadLetter hsame.deadLetter with hs' | ⟨id, now, rfl⟩
    · exact hs'
    · by_cases hid : id = row.id
      · subst hid
        refine absurd ⟨now, rfl, j, Table.mem_of_get hj, Table.key_of_get hj, hsame.deadLetter⟩ hnot.2
      · -- a replay of another job
        rw [Call.run, get_replay, hj, Option.map_some] at hj'
        obtain rfl := Option.some.inj hj'
        rw [if_neg fun hdead : DeadLettered id j => hid (hdead.1.symm.trans (Table.key_of_get hj))]
        exact hsame.deadLetter
  · intro hin j' hj' hs'
    cases hj : db.jobs.get row.id with
    | none =>
      rcases run_get c hj' with ⟨-, hnew⟩ | ⟨j, hj₀, -⟩
      · cases (status_newRow hnew).symm.trans hs'
      · cases hj.symm.trans hj₀
    | some j =>
      by_cases hs : j.status = .deadLetter
      · obtain ⟨j'', hj'', hrow⟩ := run_get_some c hj
        obtain rfl := Option.some.inj (hj''.symm.trans hj')
        rcases mem_note.mp hin with hin | ⟨now, rfl, -⟩
        · rw [(hrow.deadLetter_eq hs hs').2]
          exact h.other hin j hj hs
        · rw [Call.run, get_replay, hj, Option.map_some,
            if_pos ⟨Table.key_of_get hj, hs⟩] at hj'
          obtain rfl := Option.some.inj hj'
          cases hs'
      · exact hapart j hj j' hj' hs hs'

/-- **Every step keeps what the calls know.** -/
theorem Delivering.inv_step {a : CallbackStep} (h : s.Inv) (hok : s.DatedApart a)
    (hs : s.step a = some s') : s'.Inv := by
  -- the calls of other processes stay where they are
  have hupdate {flight : Option CallbackFlight} {p p' : ℕ} {f : CallbackFlight}
      (hf : f ∈ Function.update s.flying p flight p') : (p' = p ∧ f ∈ flight) ∨ f ∈ s.flying p' := by
    by_cases hp : p' = p
    · subst hp
      rw [Function.update_self] at hf
      exact .inl ⟨rfl, hf⟩
    · rw [Function.update_of_ne hp] at hf
      exact .inr hf
  cases a with
  | select p r =>
    rw [Delivering.step] at hs
    split at hs
    · exact nomatch hs
    · obtain rfl := Option.some.inj hs
      intro p' f hf row hrow
      rcases hupdate hf with ⟨-, hf⟩ | hf
      · obtain rfl := Option.some.inj hf
        dsimp only at hrow
        split at hrow
        · exact absurd hrow List.not_mem_nil
        · exact stillSelected_select hrow
      · exact h p' f hf row hrow
  | claimNext p =>
    rw [Delivering.step] at hs
    split at hs
    · rename_i r claimed rows jobs replayed hflight
      obtain rfl := Option.some.inj hs
      intro p' f hf row hrow
      rcases hupdate hf with ⟨-, hf⟩ | hf
      · obtain rfl := Option.some.inj hf
        exact (h p _ hflight row (List.mem_cons_of_mem _ hrow)).claimNext r claimed jobs
      · exact (h p' f hf row hrow).claimNext r claimed jobs
    · exact nomatch hs
  | leave p =>
    rw [Delivering.step] at hs
    split at hs
    · obtain rfl := Option.some.inj hs
      intro p' f hf row hrow
      rcases hupdate hf with ⟨-, hf⟩ | hf
      · exact nomatch hf
      · exact h p' f hf row hrow
    · exact nomatch hs
  | other c =>
    obtain rfl := Option.some.inj hs
    intro p f hf row hrow
    obtain ⟨f, hflying, rfl⟩ := Option.map_eq_some_iff.mp hf
    rw [rows_note] at hrow
    exact (h p f hflying row hrow).after_other (hok p f hflying row hrow)

end Steps

/-! ## Faithful claims -/

/-- **Which claims are faithful.** In a run in which different dead letters of a job have different instants, a
call that claims the next of its rows returns the dead letter it claimed if and only if the job was not
replayed since the call selected it. -/
theorem faithful_iff {s s' : Delivering}
    (h : Reaches Delivering.step Delivering.DatedApart Delivering.init s) {p : ℕ} {r : CallbackRequest}
    {row : ProcessingJob} {rows : List ProcessingJob} {jobs : List DeadLetterJob} {replayed : List JobId}
    (hflight : s.flying p = some ⟨r, row :: rows, jobs, replayed⟩)
    (hclaims : s.db.jobs.rowcount (CallbackClaimable row r.now) = 1)
    (hs : s.step (.claimNext p) = some s') :
    Faithful s'.db (claimedCallback row) ↔ row.id ∉ replayed := by
  have hinv : s.Inv := h.invariant Delivering.Inv (fun _ _ hf => nomatch hf) fun _ hinv hok hstep =>
    Delivering.inv_step hinv hok hstep
  have hselected := hinv p _ hflight row List.mem_cons_self
  obtain ⟨j, hj, hclaimable⟩ := (Table.rowcount_eq_one_iff fun _ hc => hc.1).mp hclaims
  rw [Delivering.step, hflight] at hs
  obtain rfl := Option.some.inj hs
  have hget : (claimCallbackRow r row (jobs, s.db.jobs)).2.get row.id
      = some (j.claimCallback (r.now + timedelta r.leaseSeconds) (row.deadLetterAttempts + 1)) := by
    rw [get_claimCallbackRow, hj, Option.map_some, if_pos hclaimable]
  constructor
  · rintro ⟨⟨j', hj', -, -, hdead, -⟩, -⟩ hin
    obtain rfl := Option.some.inj (hget.symm.trans hj')
    exact hselected.other hin j hj hclaimable.2.2.1 hdead.symm
  · intro hnot
    obtain ⟨j₀, hj₀, hsame⟩ := hselected.same hnot
    obtain rfl := Option.some.inj (hj.symm.trans hj₀)
    refine ⟨⟨_, hget, hsame.event.symm, hsame.lastError.symm, hsame.completedAt.symm, rfl⟩, ?_⟩
    intro db' hrun write
    have hlive : LiveDelivery (claimedCallback row)
        (j.claimCallback (r.now + timedelta r.leaseSeconds) (row.deadLetterAttempts + 1)) :=
      ⟨hclaimable.1, hclaimable.2.2.1, hclaimable.2.2.2.1, rfl, hsame.completedAt⟩
    obtain ⟨j', hj', hlive'⟩ := live_of_reaches hget hlive hrun
    exact updateDeadLetter_of_live hj' hlive' write

/-! ## A replay in between -/

/-- A job dead-letters at its first attempt. -/
def deadLetterCalls : List Call :=
  [sampleInsert 1, sampleClaim "worker" 1 "a",
    .settle (.fail "boom" 60 3600 none) ⟨"job", "worker", 1⟩ { now := 2 }]

/-- Its callback is asked for. -/
def sampleRequest : CallbackRequest :=
  { subscriberIds := ["mailer"], now := 9, leaseSeconds := 60 }

/-- It is replayed, and dead-letters again. -/
def replaySteps : List CallbackStep :=
  [.other (.replay "job" 3), .other (sampleClaim "worker" 4 "b"),
    .other (.settle (.fail "bang" 60 3600 none) ⟨"job", "worker", 1⟩ { now := 5 })]

/-- Any step may be taken. -/
abbrev Delivering.Any (_ : Delivering) (_ : CallbackStep) : Prop :=
  True

/-- The dead letter was replaced since. -/
def Delivering.replaced : Delivering :=
  runTo Delivering.step Delivering.Any Delivering.init
    (deadLetterCalls.map .other ++ [.select 0 sampleRequest] ++ replaySteps)

/-- **A replay in between is not seen**: the job failed with `boom`, and after a replay with `bang`. The call
that selected the first dead letter claims the second, and returns the first. -/
theorem faithful_not_replayed :
    ¬ ∀ (s s' : Delivering) (p : ℕ) (r : CallbackRequest) (row : ProcessingJob) (rows : List ProcessingJob)
      (jobs : List DeadLetterJob) (replayed : List JobId),
      Reaches Delivering.step Delivering.Any Delivering.init s →
      s.flying p = some ⟨r, row :: rows, jobs, replayed⟩ →
      s.db.jobs.rowcount (CallbackClaimable row r.now) = 1 →
      s.step (.claimNext p) = some s' → Faithful s'.db (claimedCallback row) := by
  intro hfaithful
  have hr : Reaches Delivering.step Delivering.Any Delivering.init Delivering.replaced :=
    reaches_runTo (by decide +kernel)
  obtain ⟨s', hs⟩ : ∃ s', Delivering.replaced.step (.claimNext 0) = some s' := ⟨_, rfl⟩
  have hrow := (hfaithful Delivering.replaced s' 0 _ _ _ _ _ hr rfl (by decide +kernel) hs).row
  obtain ⟨j, hj, -, herror, -⟩ := hrow
  obtain rfl := Option.some.inj hs
  -- the row of the second dead letter
  obtain rfl := Option.some.inj hj
  exact absurd herror (by decide +kernel)

/-- While no call is under way, nothing is asked of a step. -/
theorem reaches_idle (calls : List Call) :
    Reaches Delivering.step Delivering.DatedApart Delivering.init
      ⟨calls.foldl (fun db c => c.run db) Db.empty, fun _ => none⟩ := by
  induction calls using List.reverseRecOn with
  | nil => exact .refl
  | append_singleton calls c ih =>
    rw [List.foldl_append]
    refine ih.tail (a := .other c) ?_ rfl
    intro p f hf
    exact nomatch hf

/-- The call that claims at once is given what it claimed. -/
theorem faithful_iff_selected :
    ∃ s s' : Delivering, ∃ row : ProcessingJob, s.step (.claimNext 0) = some s'
      ∧ row.lastError = some "boom" ∧ Faithful s'.db (claimedCallback row) := by
  obtain ⟨s, hselect⟩ : ∃ s, Delivering.step ⟨deadLetterCalls.foldl (fun db c => c.run db) Db.empty,
      fun _ => none⟩ (.select 0 sampleRequest) = some s := ⟨_, rfl⟩
  have hr : Reaches Delivering.step Delivering.DatedApart Delivering.init s :=
    (reaches_idle deadLetterCalls).tail (a := CallbackStep.select 0 sampleRequest) trivial hselect
  obtain ⟨row, hflight, herror, hclaims⟩ : ∃ row, s.flying 0 = some ⟨sampleRequest, [row], [], []⟩
      ∧ row.lastError = some "boom"
      ∧ s.db.jobs.rowcount (CallbackClaimable row sampleRequest.now) = 1 := by
    obtain rfl := Option.some.inj hselect
    exact ⟨_, rfl, by decide +kernel, by decide +kernel⟩
  obtain ⟨s', hs⟩ : ∃ s', s.step (.claimNext 0) = some s' := by
    rw [Delivering.step, hflight]
    exact ⟨_, rfl⟩
  exact ⟨s, s', row, hs, herror, (faithful_iff hr hflight hclaims hs).mpr List.not_mem_nil⟩

end Jasil.Jobs
