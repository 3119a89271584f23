import Mathlib.Logic.Function.Basic
import Jasil.Jobs.AttemptHistory

/-! # Several workers claiming at once
A call of `claim_jobs` is not one step. It selects ids with one or two range scans, commits a
compare-and-set together with the attempt rows, and reads back what it took in a new transaction;
the other workers act between any two of these. The read-back matches neither the ids it won nor the
lease it wrote, only rows of the batch that the worker has a claim on.

* **`Claiming`**: the tables, the record of every claim, and the calls of `claim_jobs` under way, one
  for each worker at most. Besides, an onlooker notes which call made each transition to `claimed`,
  and which transitions each call returned.
* **`Claiming.step`**: one step of one call, a crash of one, or any other call on the tables.
* **`Claiming.Inv`**: what a call selected is under no claim of its own worker until it commits; after
  that every row of its batch under such a claim is one it took itself. -/

namespace Jasil.Jobs

/-! ## The calls under way -/

/-- One call of `claim_jobs`. -/
structure ClaimCall where
  /-- How many calls were begun before it. -/
  serial : ℕ
  request : ClaimRequest
  /-- `selected_queues`. -/
  selected : Option (List String)
  mint : JobId → AttemptId

/-- Where a call of `claim_jobs` stands. -/
inductive Phase
  /-- In `_select_due_ids`: the ids found so far, and the ranges still to scan. -/
  | scanning (jobIds : List JobId) (ranges : List (ProcessingJob → Bool))
  /-- Before the update and its commit. -/
  | selected (jobIds : List JobId)
  /-- Before the read-back. -/
  | committed (jobIds : List JobId)

/-- The ids selected so far by a call that has not committed; with row locks it holds these. -/
def Phase.held : Phase → List JobId
  | .scanning jobIds _ | .selected jobIds => jobIds
  | .committed _ => []

/-- The ids of a call whose update is committed. -/
def Phase.updated : Phase → Option (List JobId)
  | .committed jobIds => some jobIds
  | .scanning _ _ | .selected _ => none

/-- One transition of a job from `pending` to `claimed`: the call that made it (`none` when it was no
call of `claim_jobs`), and which claim of the job it was. -/
structure Transition where
  call : Option ℕ
  jobId : JobId
  claim : ℕ
  deriving DecidableEq, Repr

/-- The tables and the record of claims, with the calls of `claim_jobs` around them. -/
structure Claiming extends Recorded where
  /-- Every call so far. -/
  begun : List ClaimCall
  /-- The call each worker is in. -/
  flying : WorkerId → Option (ClaimCall × Phase)
  /-- Every transition so far. -/
  taken : List Transition
  /-- The transitions whose jobs a read-back returned. -/
  returned : List Transition

/-- The jobs that a call takes from `pending` to `claimed`. -/
def Recorded.newlyClaimed (s : Recorded) (c : Call) : List JobId :=
  ((c.run s.db).jobs.select fun j' =>
    j'.status = .claimed ∧ ∃ j ∈ s.db.jobs.get j'.id, j.status = .pending).map ProcessingJob.id

namespace Claiming

/-- A fresh installation. -/
def init : Claiming := ⟨Recorded.init, [], fun _ => none, [], []⟩

/-- The worker's call is now in `phase`. -/
def enter (s : Claiming) (w : WorkerId) (call : ClaimCall) (phase : Phase) : Claiming :=
  { s with flying := Function.update s.flying w (some (call, phase)) }

/-- The worker's call is over. -/
def leave (s : Claiming) (w : WorkerId) : Claiming :=
  { s with flying := Function.update s.flying w none }

/-- A call on the tables, made by `performer`; the onlooker notes the transitions it makes. -/
def make (s : Claiming) (performer : Option ℕ) (c : Call) : Claiming :=
  { s with
    toRecorded := s.toRecorded.after c
    taken := s.taken ++ (s.toRecorded.newlyClaimed c).map fun id =>
      ⟨performer, id, (s.claims id).grants.length⟩ }

/-- The step a worker's call takes next, a crash, or a call of another kind. -/
inductive Step
  | begin (r : ClaimRequest) (mint : JobId → AttemptId)
  /-- One range scan. The rows `locked` are passed over. -/
  | scan (w : WorkerId) (locked : List JobId)
  | update (w : WorkerId)
  | readBack (w : WorkerId)
  | abort (w : WorkerId)
  | other (c : Call)

/-- Take one step. A worker begins no call while it is in one. -/
def step (s : Claiming) : Step → Option Claiming
  | .begin r mint =>
    match s.flying r.workerId with
    | some _ => none
    | none =>
      match normalizeQueueSelector r.queues, checkQueueCursor r.queueCursor with
      | .ok selected, .ok _ =>
        let call : ClaimCall := ⟨s.begun.length, r, selected, mint⟩
        some { s with
          begun := s.begun ++ [call]
          flying := Function.update s.flying r.workerId
            (some (call, .scanning [] (scanRanges r.queueCursor))) }
      -- the call raises before it reads anything
      | _, _ => some s
  | .scan w locked =>
    match s.flying w with
    | some (call, .scanning jobIds []) => some (s.enter w call (.selected jobIds))
    | some (call, .scanning jobIds (bounds :: ranges)) =>
      let remaining := call.request.limit - jobIds.length
      if remaining = 0 then some (s.enter w call (.selected jobIds))
      else
        let found := scanRange s.db (call.request.Due call.selected) bounds locked remaining
        some (s.enter w call (.scanning (jobIds ++ found) ranges))
    | _ => none
  | .update w =>
    match s.flying w with
    | some (call, .selected jobIds) =>
      if jobIds.isEmpty then some (s.leave w)
      else
        let s := s.make (some call.serial) (.claimSelected call.request jobIds call.mint)
        some (s.enter w call (.committed jobIds))
    | _ => none
  | .readBack w =>
    match s.flying w with
    | some (call, .committed jobIds) =>
      let rows := claimReadBack s.db call.request.workerId jobIds
      -- what is returned of a job is the claim it is under, the last one
      some { s.leave w with
        returned := s.returned ++ rows.map fun j =>
          ⟨some call.serial, j.id, (s.claims j.id).grants.length - 1⟩ }
    | _ => none
  | .abort w =>
    match s.flying w with
    | some _ => some (s.leave w)
    | none => none
  | .other c => some (s.make none c)

/-- **What the database and the processes guarantee**: with `SKIP LOCKED` a scan passes over the rows
that other calls hold (and over any other row that is locked), without it over none; attempt ids are
fresh; and nothing but `claim_jobs` claims jobs. -/
def Ok (skipLocked : Bool) (s : Claiming) : Step → Prop
  | .scan w locked =>
    if skipLocked then
      ∀ w' ≠ w, ∀ flight ∈ s.flying w', ∀ id ∈ flight.2.held, id ∈ locked
    else locked = []
  | .update w => ∀ flight ∈ s.flying w, FreshIds s.db flight.1.mint
  | .other c => c.isClaim = false
  | _ => True

end Claiming

/-! ## The claimed rows -/

/-- The worker that a call claims jobs for. -/
def Call.claimant : Call → Option WorkerId
  | .claim r _ | .claimSelected r _ _ => some r.workerId
  | _ => none

/-- What is no claim has no claimant. -/
theorem claimant_of_not_claim {c : Call} (hc : c.isClaim = false) : c.claimant = none := by
  cases c with
  | claim r mint => exact nomatch hc
  | claimSelected r jobIds mint => exact nomatch hc
  | _ => rfl

/-- **A row under a claim** was under it before the call, or is pending no more for the worker the
call claims for. -/
theorem RowStep.claimed_cases {c : Call} {j j' : ProcessingJob} (h : RowStep c j j')
    (hs' : j'.status = .claimed) :
    (j.status = .claimed ∧ j'.lockedBy = j.lockedBy) ∨
      (j.status = .pending ∧ c.claimant ≠ none ∧ j'.lockedBy = c.claimant) := by
  cases h with
  | keep => exact Or.inl ⟨hs', rfl⟩
  | claim hp => exact Or.inr ⟨hp, nofun, rfl⟩
  | claimSelected ht => exact Or.inr ⟨ht.2, nofun, rfl⟩
  | renew hh => exact Or.inl ⟨hh.2.1, rfl⟩
  | settle ho hset =>
    cases hset with
    | deferExhausted _ | continueExhausted _ => exact Or.inl ⟨hs', rfl⟩
    | _ => exact nomatch hs'
  | claimCallback _ | notified _ | deferCallback _ | releaseCallback _ => exact Or.inl ⟨hs', rfl⟩
  | release _ | expireLast _ _ | expireRequeue _ _ | replay _ => exact nomatch hs'

/-- A row that a worker has a claim on after a call it did not make to claim jobs was under that claim
before. -/
theorem claimedBy_before {db : Db} {c : Call} {jobIds : List JobId} {w : WorkerId}
    (hw : c.claimant ≠ some w) {j' : ProcessingJob} (hj' : j' ∈ (c.run db).jobs.rows)
    (hcl : ClaimedBy jobIds w j') :
    ∃ j, db.jobs.get j'.id = some j ∧ ClaimedBy jobIds w j := by
  obtain ⟨hmem, hs', hlock⟩ := hcl
  rcases run_get c (Table.get_key hj') with ⟨-, hnew⟩ | ⟨j, hj, hrow⟩
  · exact nomatch (status_newRow hnew).symm.trans hs'
  · refine ⟨j, hj, ?_⟩
    rcases hrow.claimed_cases hs' with ⟨hs, he⟩ | ⟨-, -, he⟩
    · exact ⟨(Table.key_of_get hj).symm ▸ hmem, hs, he ▸ hlock⟩
    · exact absurd (he.symm.trans hlock) hw

/-- A call for another worker leaves a worker without the jobs. -/
theorem holdsNone_after {db : Db} {c : Call} {jobIds : List JobId} {w : WorkerId}
    (h : HoldsNone db jobIds w) (hw : c.claimant ≠ some w) : HoldsNone (c.run db) jobIds w := by
  intro j' hj' hcl
  obtain ⟨j, hj, hcl⟩ := claimedBy_before hw hj' hcl
  exact h j (Table.mem_of_get hj) hcl

/-! ## The transitions -/

/-- Whether a call takes one job from `pending` to `claimed`. -/
def Recorded.Claims (s : Recorded) (c : Call) (id : JobId) : Prop :=
  ∃ j j', s.db.jobs.get id = some j ∧ (c.run s.db).jobs.get id = some j' ∧ j.status = .pending ∧
    j'.status = .claimed

/-- The jobs that a call claims are those that the onlooker notes. -/
theorem mem_newlyClaimed {s : Recorded} {c : Call} {id : JobId} :
    id ∈ s.newlyClaimed c ↔ s.Claims c id := by
  simp only [Recorded.newlyClaimed, List.mem_map, Table.mem_select]
  constructor
  · rintro ⟨j', ⟨hj', hs', j, hj, hs⟩, rfl⟩
    exact ⟨j, j', hj, Table.get_key hj', hs, hs'⟩
  · rintro ⟨j, j', hj, hj', hs, hs'⟩
    have hid := Table.key_of_get hj'
    exact ⟨j', ⟨Table.mem_of_get hj', hs', j, hid.symm ▸ hj, hs⟩, hid⟩

/-- Each job is claimed once by a call. -/
theorem nodup_newlyClaimed (s : Recorded) (c : Call) : (s.newlyClaimed c).Nodup :=
  (c.run s.db).jobs.nodup.sublist (List.filter_sublist.map _)

/-- **The record of a job grows by one exactly with a transition.** -/
theorem length_claims_after {s : Recorded} {c : Call} {id : JobId}
    (h : InSync (s.db.jobs.get id) (s.claims id)) :
    (s.Claims c id ∧ ((s.after c).claims id).grants.length = (s.claims id).grants.length + 1) ∨
      (¬ s.Claims c id ∧
        ((s.after c).claims id).grants.length = (s.claims id).grants.length) := by
  simp only [Recorded.after]
  cases hj : s.db.jobs.get id with
  | none =>
    refine Or.inr ⟨?_, rfl⟩
    rintro ⟨j, -, hj₀, -⟩
    cases hj.symm.trans hj₀
  | some j =>
    rw [hj] at h
    obtain ⟨j', hj', hrow⟩ := run_get_some c hj
    have hclaims : s.Claims c id ↔ j.status = .pending ∧ j'.status = .claimed := by
      constructor
      · rintro ⟨j₁, j₁', hj₁, hj₁', hs, hs'⟩
        obtain rfl := Option.some.inj (hj.symm.trans hj₁)
        obtain rfl := Option.some.inj (hj'.symm.trans hj₁')
        exact ⟨hs, hs'⟩
      · exact fun hs => ⟨j, j', hj, hj', hs⟩
    rw [hj', hclaims]
    -- what the record makes of the row before and after
    have hseen := h.observed hrow (openedRows s.db (c.run s.db) id)
    generalize observeRow c.isRelease _ (some j) (some j') (s.claims id) = log' at hseen ⊢
    cases hseen with
    | same _ hsame =>
      refine Or.inr ⟨?_, rfl⟩
      rintro ⟨hs, hs'⟩
      cases hs.symm.trans (hsame hs').1
    | claimed hs hs' _ => exact Or.inl ⟨⟨hs, hs'⟩, by simp [GrantLog.issue]⟩
    | released _ _ hs' _ _ =>
      refine Or.inr ⟨?_, GrantLog.length_revoke _ _⟩
      exact fun h => by cases hs'.symm.trans h.2
    | replayed _ hs' _ =>
      refine Or.inr ⟨?_, rfl⟩
      exact fun h => by cases hs'.symm.trans h.2

/-- The transitions that the update of a call makes are of the rows it takes. -/
theorem mem_newlyClaimed_update {s : Recorded} {r : ClaimRequest} {jobIds : List JobId}
    {mint : JobId → AttemptId} {id : JobId} :
    id ∈ s.newlyClaimed (.claimSelected r jobIds mint) ↔
      ∃ j, s.db.jobs.get id = some j ∧ Takes jobIds j := by
  rw [mem_newlyClaimed]
  constructor
  · rintro ⟨j, j', hj, hj', hs, hs'⟩
    refine ⟨j, hj, ?_⟩
    by_contra hno
    rw [Call.run, get_claimUpdate, hj, Option.map_some, if_neg hno] at hj'
    obtain rfl := Option.some.inj hj'
    cases hs.symm.trans hs'
  · rintro ⟨j, hj, ht⟩
    refine ⟨j, j.claim r, hj, ?_, ht.2, rfl⟩
    rw [Call.run, get_claimUpdate, hj, Option.map_some, if_pos ht]

/-! ## The invariant -/

/-- **What is known of a call under way.** -/
def Claiming.Flight (s : Claiming) (w : WorkerId) (call : ClaimCall) : Phase → Prop
  | .scanning jobIds _ | .selected jobIds =>
    (∀ t ∈ s.taken, t.call ≠ some call.serial) ∧ HoldsNone s.db jobIds w
  | .committed jobIds =>
    (∀ t ∈ s.taken, t.call = some call.serial → t.jobId ∈ jobIds) ∧
      ∀ j ∈ s.db.jobs.rows, ClaimedBy jobIds w j →
        (⟨some call.serial, j.id, (s.claims j.id).grants.length - 1⟩ : Transition) ∈ s.taken

/-- **The claim is one that the call made**, with the attempt row it opened. -/
structure MadeBy (s : Claiming) (id : JobId) (g : Grant Claimant) (call : ClaimCall) : Prop where
  begun : call ∈ s.begun
  taken : (⟨some call.serial, id, g.serial⟩ : Transition) ∈ s.taken
  worker : g.holder.lockedBy = some call.request.workerId
  opened : if call.request.recordAttempts then ∃ a, OpenedBy s.db.attempts id g a
    else g.holder.opened = []

/-- **What holds in every state**: the onlooker's record fits the rows, and every claim was made by a call
that was begun. -/
structure Claiming.Inv (s : Claiming) : Prop where
  inSync : ∀ id, InSync (s.db.jobs.get id) (s.claims id)
  begun : s.begun.map ClaimCall.serial = List.range s.begun.length
  taken : ∀ id, (s.taken.filter (·.jobId = id)).map Transition.claim =
    List.range (s.claims id).grants.length
  made : ∀ id, ∀ g ∈ (s.claims id).grants, ∃ call, MadeBy s id g call
  source : ∀ a ∈ s.db.attempts.rows, ∃ g ∈ (s.claims a.jobId).grants,
    OpenedBy s.db.attempts a.jobId g a
  flying : ∀ w call phase, s.flying w = some (call, phase) →
    call ∈ s.begun ∧ call.request.workerId = w ∧ s.Flight w call phase ∧
      ∀ t ∈ s.returned, t.call ≠ some call.serial
  nodup : s.returned.Nodup
  returned : ∀ t ∈ s.returned, t ∈ s.taken

/-- It holds of a fresh installation. -/
theorem Claiming.inv_init : Claiming.init.Inv where
  inSync _ := rfl
  begun := rfl
  taken _ := rfl
  made _ _ hg := nomatch hg
  source _ ha := nomatch ha
  flying _ _ _ hf := nomatch hf
  nodup := List.nodup_nil
  returned _ ht := nomatch ht

section Inv

variable {s : Claiming} (h : s.Inv)
include h

/-- A job and the number of its claim determine the transition. -/
theorem Claiming.Inv.eq_of_taken {t t' : Transition} (ht : t ∈ s.taken) (ht' : t' ∈ s.taken)
    (hid : t.jobId = t'.jobId) (hclaim : t.claim = t'.claim) : t = t' := by
  have hnd : ((s.taken.filter (·.jobId = t'.jobId)).map Transition.claim).Nodup := by
    rw [h.taken]
    exact List.nodup_range
  refine List.inj_on_of_nodup_map hnd ?_ ?_ hclaim
  · exact List.mem_filter.mpr ⟨ht, decide_eq_true hid⟩
  · exact List.mem_filter.mpr ⟨ht', decide_eq_true rfl⟩

/-- Every transition noted is a claim of the record. -/
theorem Claiming.Inv.grant_of_taken {t : Transition} (ht : t ∈ s.taken) :
    ∃ g ∈ (s.claims t.jobId).grants, g.serial = t.claim := by
  have hm : t.claim ∈ (s.taken.filter (·.jobId = t.jobId)).map Transition.claim :=
    List.mem_map_of_mem (List.mem_filter.mpr ⟨ht, decide_eq_true rfl⟩)
  rw [h.taken, ← (h.inSync t.jobId).numbered] at hm
  exact List.mem_map.mp hm

/-- Every transition noted was made by a call that was begun. -/
theorem Claiming.Inv.call_of_taken {t : Transition} (ht : t ∈ s.taken) :
    ∃ call ∈ s.begun, t.call = some call.serial := by
  obtain ⟨g, hg, hserial⟩ := h.grant_of_taken ht
  obtain ⟨call, hmade⟩ := h.made _ g hg
  refine ⟨call, hmade.begun, ?_⟩
  rw [h.eq_of_taken ht hmade.taken rfl hserial.symm]

/-- Calls are numbered from zero on. -/
theorem Claiming.Inv.serial_lt {call : ClaimCall} (hc : call ∈ s.begun) :
    call.serial < s.begun.length := by
  have hm : call.serial ∈ s.begun.map ClaimCall.serial := List.mem_map_of_mem hc
  rw [h.begun] at hm
  exact List.mem_range.mp hm

/-- The serial of a call determines it. -/
theorem Claiming.Inv.eq_of_serial {call call' : ClaimCall} (hc : call ∈ s.begun)
    (hc' : call' ∈ s.begun) (hserial : call.serial = call'.serial) : call = call' := by
  have hnd : (s.begun.map ClaimCall.serial).Nodup := by
    rw [h.begun]
    exact List.nodup_range
  exact List.inj_on_of_nodup_map hnd hc hc' hserial

/-- **The transitions noted of a job stay the numbers of its claims**, whatever the call. -/
theorem Claiming.Inv.taken_make (performer : Option ℕ) (c : Call) (id : JobId) :
    ((s.make performer c).taken.filter (·.jobId = id)).map Transition.claim =
      List.range ((s.make performer c).claims id).grants.length := by
  have hnew : ((s.newlyClaimed c).map fun id =>
        (⟨performer, id, (s.claims id).grants.length⟩ : Transition)).filter (·.jobId = id) =
      if id ∈ s.newlyClaimed c then [⟨performer, id, (s.claims id).grants.length⟩] else [] := by
    rw [List.filter_map]
    have hcomp : ((fun t : Transition => decide (t.jobId = id)) ∘ fun id =>
        (⟨performer, id, (s.claims id).grants.length⟩ : Transition)) = fun id' => id' = id := rfl
    rw [hcomp, List.filter_eq, (nodup_newlyClaimed s.toRecorded c).count]
    split <;> rfl
  have hlen := length_claims_after (c := c) (h.inSync id)
  rw [← mem_newlyClaimed] at hlen
  simp only [Claiming.make, List.filter_append, List.map_append, h.taken, hnew]
  rcases hlen with ⟨hm, hlen⟩ | ⟨hm, hlen⟩
  · rw [if_pos hm, hlen, List.range_succ]
    rfl
  · rw [if_neg hm, hlen]
    simp

end Inv

/-- What is known of a call stays known while others act. -/
theorem Claiming.Flight.make {s : Claiming} {w : WorkerId} {call : ClaimCall} {phase : Phase}
    (hf : s.Flight w call phase) {performer : Option ℕ} {c : Call} (hw : c.claimant ≠ some w)
    (hp : performer ≠ some call.serial) : (s.make performer c).Flight w call phase := by
  have hold : ∀ t ∈ (s.make performer c).taken, t.call = some call.serial → t ∈ s.taken := by
    intro t ht hcall
    rcases List.mem_append.mp ht with ht | ht
    · exact ht
    · obtain ⟨id, -, rfl⟩ := List.mem_map.mp ht
      exact absurd hcall hp
  cases phase with
  | scanning jobIds ranges | selected jobIds =>
    exact ⟨fun t ht hcall => hf.1 t (hold t ht hcall) hcall, holdsNone_after hf.2 hw⟩
  | committed jobIds =>
    refine ⟨fun t ht hcall => hf.1 t (hold t ht hcall) hcall, fun j' hj' hcl => ?_⟩
    obtain ⟨j, hj, hcl₀⟩ := claimedBy_before hw hj' hcl
    have hsame : (s.toRecorded.after c).claims j'.id = s.claims j'.id :=
      claims_of_claimed hj hcl₀.2.1 (Table.get_key hj') hcl.2.1
    have hid : j.id = j'.id := Table.key_of_get hj
    have htaken := hf.2 j (Table.mem_of_get hj) hcl₀
    rw [hid] at htaken
    refine List.mem_append_left _ ?_
    simpa only [Claiming.make, hsame] using htaken

/-- A scan finds pending rows, which are under no claim. -/
theorem holdsNone_scan {db : Db} {jobIds : List JobId} {w : WorkerId} (hnone : HoldsNone db jobIds w)
    {filters : ProcessingJob → Prop} [DecidablePred filters]
    (hpending : ∀ j, filters j → j.status = .pending) (bounds : ProcessingJob → Bool)
    (locked : List JobId) (remaining : ℕ) :
    HoldsNone db (jobIds ++ scanRange db filters bounds locked remaining) w := by
  rintro j hj ⟨hmem, hs, hlock⟩
  rcases List.mem_append.mp hmem with hmem | hmem
  · exact hnone j hj ⟨hmem, hs, hlock⟩
  · obtain ⟨-, j', hj', hf⟩ := mem_scanRange hmem
    obtain rfl := Option.some.inj (hj'.symm.trans (Table.get_key hj))
    exact nomatch (hpending _ hf).symm.trans hs

section Steps

variable {s : Claiming} (h : s.Inv)
include h

/-- It is kept when a call goes on. -/
theorem Claiming.Inv.enter {w : WorkerId} {call : ClaimCall} {phase : Phase}
    (hbegun : call ∈ s.begun) (hworker : call.request.workerId = w)
    (hflight : s.Flight w call phase) (hret : ∀ t ∈ s.returned, t.call ≠ some call.serial) :
    (s.enter w call phase).Inv where
  inSync := h.inSync
  begun := h.begun
  taken := h.taken
  made := by
    intro id g hg
    obtain ⟨call', hmade⟩ := h.made id g hg
    exact ⟨call', ⟨hmade.begun, hmade.taken, hmade.worker, hmade.opened⟩⟩
  source := h.source
  flying := by
    intro w' call' phase' hf
    simp only [Claiming.enter, Function.update_apply] at hf
    split at hf
    case isTrue hw =>
      obtain ⟨rfl, rfl⟩ := Prod.mk.inj (Option.some.inj hf)
      subst hw
      exact ⟨hbegun, hworker, by cases phase <;> exact hflight, hret⟩
    case isFalse =>
      obtain ⟨hb, hw, hfl, hr⟩ := h.flying w' call' phase' hf
      exact ⟨hb, hw, by cases phase' <;> exact hfl, hr⟩
  nodup := h.nodup
  returned := h.returned

/-- It is kept when a call ends. -/
theorem Claiming.Inv.leave (w : WorkerId) : (s.leave w).Inv where
  inSync := h.inSync
  begun := h.begun
  taken := h.taken
  made := by
    intro id g hg
    obtain ⟨call', hmade⟩ := h.made id g hg
    exact ⟨call', ⟨hmade.begun, hmade.taken, hmade.worker, hmade.opened⟩⟩
  source := h.source
  flying := by
    intro w' call' phase' hf
    simp only [Claiming.leave, Function.update_apply] at hf
    split at hf
    case isTrue => exact nomatch hf
    case isFalse =>
      obtain ⟨hb, hw, hfl, hr⟩ := h.flying w' call' phase' hf
      exact ⟨hb, hw, by cases phase' <;> exact hfl, hr⟩
  nodup := h.nodup
  returned := h.returned

/-- A call on the tables that claims nothing keeps the invariant. -/
theorem Claiming.Inv.other {c : Call} (hc : c.isClaim = false) : (s.make none c).Inv where
  inSync := Recorded.inSync_after h.inSync
  begun := h.begun
  taken := h.taken_make none c
  made := by
    intro id g' hg'
    obtain ⟨g, hg, he⟩ := GrantLog.exists_of_map_ident (ident_after hc id).symm hg'
    obtain ⟨call, hmade⟩ := h.made id g hg
    have hident := he
    simp only [Grant.ident, Prod.mk.injEq] at hident
    obtain ⟨hserial, -, -, hholder⟩ := hident
    refine ⟨call, hmade.begun, ?_, ?_, ?_⟩
    · rw [← hserial]
      exact List.mem_append_left _ hmade.taken
    · rw [← hholder]
      exact hmade.worker
    · -- the attempt that a recorded claim opened is there still, closed perhaps
      have hopened := hmade.opened
      split at hopened
      case isTrue hrec =>
        obtain ⟨a, ha⟩ := hopened
        rw [if_pos hrec]
        exact ⟨_, ha.after hc he.symm⟩
      case isFalse hrec =>
        rw [if_neg hrec, ← hholder, hopened]
  source := by
    intro a' ha'
    obtain ⟨a, ha, rfl⟩ := row_of_after hc ha'
    obtain ⟨g, hg, hop⟩ := h.source a ha
    obtain ⟨g', hg', he⟩ := GrantLog.exists_of_map_ident (ident_after hc a.jobId) hg
    rw [(onAttempt_same s.db c a).jobId]
    exact ⟨g', hg', hop.after hc he⟩
  flying := by
    intro w call phase hf
    obtain ⟨hb, hw, hfl, hr⟩ := h.flying w call phase hf
    refine ⟨hb, hw, hfl.make ?_ (by rintro ⟨⟩), hr⟩
    rw [claimant_of_not_claim hc]
    rintro ⟨⟩
  nodup := h.nodup
  returned := fun t ht => List.mem_append_left _ (h.returned t ht)

/-- **The update of a call** keeps the invariant, once the call is taken out of those under way. -/
theorem Claiming.Inv.update {call : ClaimCall} {jobIds : List JobId} (hbegun : call ∈ s.begun)
    (hout : s.flying call.request.workerId = none)
    (hnone : HoldsNone s.db jobIds call.request.workerId) (hfresh : FreshIds s.db call.mint) :
    (s.make (some call.serial) (.claimSelected call.request jobIds call.mint)).Inv := by
  set c : Call := .claimSelected call.request jobIds call.mint with hc
  have hrun : c.run s.db = claimUpdate s.db call.request jobIds call.mint := rfl
  have hattempts (hrec : ¬ call.request.recordAttempts = true) :
      (s.toRecorded.after c).db.attempts = s.db.attempts := by
    rw [Recorded.after, hrun, claimUpdate, if_neg hrec]
  have hold {id : JobId} {g : Grant Claimant} {made : ClaimCall} (hmade : MadeBy s id g made) :
      MadeBy (s.make (some call.serial) c) id g made := by
    refine ⟨hmade.begun, List.mem_append_left _ hmade.taken, hmade.worker, ?_⟩
    have hopened := hmade.opened
    split at hopened
    case isTrue hrec =>
      obtain ⟨a, ha⟩ := hopened
      rw [if_pos hrec]
      exact ⟨a, ha.claim hrun⟩
    case isFalse hrec => rwa [if_neg hrec]
  have hcases (id : JobId) :
      (∃ j, s.db.jobs.get id = some j ∧ Takes jobIds j) ∨
        ∀ j, s.db.jobs.get id = some j → ¬ Takes jobIds j := by
    by_cases hex : ∃ j, s.db.jobs.get id = some j ∧ Takes jobIds j
    · exact Or.inl hex
    · exact Or.inr fun j hj ht => hex ⟨j, hj, ht⟩
  refine ⟨?_, h.begun, ?_, ?_, ?_, ?_, h.nodup, ?_⟩
  · exact Recorded.inSync_after h.inSync
  · exact h.taken_make _ c
  · intro id g hg
    rcases hcases id with ⟨j, hj, ht⟩ | hno
    · have hg' : g ∈ ((s.toRecorded.after c).claims id).grants := hg
      rw [claims_of_takes hrun hj ht] at hg'
      rcases GrantLog.mem_issue.mp hg' with hg' | rfl
      · obtain ⟨made, hmade⟩ := h.made id g hg'
        exact ⟨made, hold hmade⟩
      · -- the claim is this call's
        refine ⟨call, hbegun, ?_, rfl, ?_⟩
        · refine List.mem_append_right _ (List.mem_map.mpr ⟨id, ?_, rfl⟩)
          exact mem_newlyClaimed_update.mpr ⟨j, hj, ht⟩
        · by_cases hrec : call.request.recordAttempts = true
          · rw [if_pos hrec]
            refine ⟨_, openedBy_of_takes hrun hrec hfresh hnone hj ht rfl ?_⟩
            simp only
            rw [openedRows_of_takes hrun hrec hfresh hnone hj ht]
          · rw [if_neg hrec]
            have hsame : (c.run s.db).attempts = s.db.attempts := hattempts hrec
            simp [openedRows, hsame, Table.added]
    · have hg' : g ∈ ((s.toRecorded.after c).claims id).grants := hg
      rw [claims_of_not_takes hrun hno] at hg'
      obtain ⟨made, hmade⟩ := h.made id g hg'
      exact ⟨made, hold hmade⟩
  · intro a ha
    -- a row of before keeps its claim
    have hkept (ha : a ∈ s.db.attempts.rows) :
        ∃ g ∈ ((s.toRecorded.after c).claims a.jobId).grants,
          OpenedBy (s.toRecorded.after c).db.attempts a.jobId g a := by
      obtain ⟨g, hg, hop⟩ := h.source a ha
      refine ⟨g, ?_, hop.claim hrun⟩
      rcases hcases a.jobId with ⟨j, hj, ht⟩ | hno
      · rw [claims_of_takes hrun hj ht]
        exact GrantLog.mem_issue.mpr (Or.inl hg)
      · rwa [claims_of_not_takes hrun hno]
    have ha' : a ∈ (s.toRecorded.after c).db.attempts.rows := ha
    by_cases hrec : call.request.recordAttempts = true
    · rcases row_of_claim hrun hrec hfresh hnone ha' with hin | ⟨j, hj, ht, he⟩
      · exact hkept hin
      · have hclaims := claims_of_takes hrun hj ht
        rw [openedRows_of_takes hrun hrec hfresh hnone hj ht] at hclaims
        obtain ⟨g, hg, htok, hholder⟩ : ∃ g ∈ ((s.toRecorded.after c).claims a.jobId).grants,
            g.token = j.attempts + 1 ∧ g.holder =
              ⟨some call.request.workerId, some call.request.now, [call.mint a.jobId]⟩ := by
          rw [hclaims]
          exact ⟨_, GrantLog.mem_issue.mpr (Or.inr rfl), rfl, rfl⟩
        have hop := openedBy_of_takes hrun hrec hfresh hnone hj ht htok hholder
        rw [← he] at hop
        exact ⟨g, hg, hop⟩
    · rw [hattempts hrec] at ha'
      exact hkept ha'
  · intro w' call' phase hf
    obtain ⟨hb, hw, hfl, hr⟩ := h.flying w' call' phase hf
    -- the calls under way are of other workers
    have hne : call.request.workerId ≠ w' := by
      rintro rfl
      cases hout.symm.trans hf
    refine ⟨hb, hw, hfl.make (fun he => hne (Option.some.inj he)) (fun he => ?_), hr⟩
    have hcall := h.eq_of_serial hbegun hb (Option.some.inj he)
    exact hne (hcall ▸ hw)
  · exact fun t ht => List.mem_append_left _ (h.returned t ht)

/-- A new call has made no transition. -/
theorem Claiming.Inv.begin (call : ClaimCall) (hserial : call.serial = s.begun.length)
    (ranges : List (ProcessingJob → Bool)) :
    Claiming.Inv { s with
      begun := s.begun ++ [call]
      flying := Function.update s.flying call.request.workerId
        (some (call, .scanning [] ranges)) } := by
  have hbegun : Claiming.Inv { s with begun := s.begun ++ [call] } := by
    refine ⟨h.inSync, ?_, h.taken, ?_, h.source, ?_, h.nodup, h.returned⟩
    · simp [h.begun, hserial, List.range_succ]
    · intro id g hg
      obtain ⟨made, hmade⟩ := h.made id g hg
      exact ⟨made, ⟨List.mem_append_left _ hmade.begun, hmade.taken, hmade.worker, hmade.opened⟩⟩
    · intro w call' phase hf
      obtain ⟨hb, hw, hfl, hr⟩ := h.flying w call' phase hf
      exact ⟨List.mem_append_left _ hb, hw, by cases phase <;> exact hfl, hr⟩
  -- its number is new
  have hnone (t : Transition) (ht : t ∈ s.taken) : t.call ≠ some call.serial := by
    obtain ⟨made, hmade, he⟩ := h.call_of_taken ht
    have hlt := h.serial_lt hmade
    rw [he, ne_eq, Option.some.injEq]
    omega
  refine hbegun.enter (List.mem_append_right _ (List.mem_singleton_self call)) rfl ⟨hnone, ?_⟩ ?_
  · exact fun j _ hcl => nomatch hcl.1
  · exact fun t ht => hnone t (h.returned t ht)

/-- A read-back returns only transitions of its own call. -/
theorem Claiming.Inv.readBack {w : WorkerId} {call : ClaimCall} {jobIds : List JobId}
    (hf : s.flying w = some (call, .committed jobIds)) :
    Claiming.Inv { s.leave w with
      returned := s.returned ++ (claimReadBack s.db call.request.workerId jobIds).map fun j =>
        ⟨some call.serial, j.id, (s.claims j.id).grants.length - 1⟩ } := by
  obtain ⟨hb, rfl, hfl, hr⟩ := h.flying w call _ hf
  have hleave := h.leave call.request.workerId
  refine ⟨hleave.inSync, hleave.begun, hleave.taken, ?_, hleave.source, ?_, ?_, ?_⟩
  · intro id g hg
    obtain ⟨made, hmade⟩ := h.made id g hg
    exact ⟨made, ⟨hmade.begun, hmade.taken, hmade.worker, hmade.opened⟩⟩
  · intro w' call' phase hf'
    obtain ⟨hb', hw', hfl', hr'⟩ := hleave.flying w' call' phase hf'
    refine ⟨hb', hw', by cases phase <;> exact hfl', fun t ht => ?_⟩
    rcases List.mem_append.mp ht with ht | ht
    · exact hr' t ht
    · obtain ⟨j, -, rfl⟩ := List.mem_map.mp ht
      intro he
      -- the other calls under way are of other workers
      obtain rfl := h.eq_of_serial hb hb' (Option.some.inj he)
      simp only [Claiming.leave, Function.update_apply, if_pos hw'.symm] at hf'
      exact nomatch hf'
  · refine List.nodup_append.mpr ⟨h.nodup, ?_, ?_⟩
    · have hids := nodup_claimReadBack s.db call.request.workerId jobIds
      refine List.Nodup.of_map Transition.jobId ?_
      rwa [List.map_map]
    · intro t ht t' ht' he
      obtain ⟨j, -, rfl⟩ := List.mem_map.mp ht'
      -- this call has returned nothing before
      exact hr t ht (he ▸ rfl)
  · intro t ht
    rcases List.mem_append.mp ht with ht | ht
    · exact h.returned t ht
    · obtain ⟨j, hj, rfl⟩ := List.mem_map.mp ht
      obtain ⟨hrow, hcl⟩ := mem_claimReadBack.mp hj
      exact hfl.2 j hrow hcl

/-- **Every step keeps the invariant.** -/
theorem Claiming.Inv.step {skipLocked : Bool} {a : Claiming.Step} {s' : Claiming}
    (hok : Claiming.Ok skipLocked s a) (hs : s.step a = some s') : s'.Inv := by
  cases a with
  | begin r mint =>
    rw [Claiming.step] at hs
    split at hs
    case h_1 => exact nomatch hs
    case h_2 =>
      split at hs
      case h_1 selected _ _ _ =>
        obtain rfl := Option.some.inj hs
        exact h.begin ⟨s.begun.length, r, selected, mint⟩ rfl _
      case h_2 =>
        obtain rfl := Option.some.inj hs
        exact h
  | scan w locked =>
    rw [Claiming.step] at hs
    split at hs
    case h_1 call jobIds hf =>
      obtain rfl := Option.some.inj hs
      obtain ⟨hb, hw, hfl, hr⟩ := h.flying w call _ hf
      exact h.enter hb hw hfl hr
    case h_2 call jobIds bounds ranges hf =>
      obtain ⟨hb, hw, hfl, hr⟩ := h.flying w call _ hf
      dsimp only at hs
      split at hs
      · obtain rfl := Option.some.inj hs
        exact h.enter hb hw hfl hr
      · obtain rfl := Option.some.inj hs
        -- what the scan adds is not held by the worker
        exact h.enter hb hw ⟨hfl.1, holdsNone_scan hfl.2 (fun j hdue => hdue.1) _ _ _⟩ hr
    case h_3 => exact nomatch hs
  | update w =>
    rw [Claiming.step] at hs
    split at hs
    case h_1 call jobIds hf =>
      obtain ⟨hb, rfl, hfl, hr⟩ := h.flying w call _ hf
      split at hs
      · obtain rfl := Option.some.inj hs
        exact h.leave _
      · obtain rfl := Option.some.inj hs
        -- between the two the call counts as under way no more
        set c : Call := .claimSelected call.request jobIds call.mint
        have hleave := h.leave call.request.workerId
        have hout : (s.leave call.request.workerId).flying call.request.workerId = none := by
          simp [Claiming.leave]
        have hmade := hleave.update hb hout hfl.2 (hok _ hf)
        have hflight : ((s.leave call.request.workerId).make (some call.serial) c).Flight
            call.request.workerId call (.committed jobIds) := by
          refine ⟨fun t ht hcall => ?_, fun j' hj' hcl => ?_⟩
          · rcases List.mem_append.mp ht with ht | ht
            · exact absurd hcall (hfl.1 t ht)
            · obtain ⟨id, hid, rfl⟩ := List.mem_map.mp ht
              obtain ⟨j, hj, hmem, -⟩ := mem_newlyClaimed_update.mp hid
              exact Table.key_of_get hj ▸ hmem
          · -- a row of the batch under a claim of the worker was not before, so it was taken
            have hclaims : s.Claims c j'.id := by
              rcases run_get c (Table.get_key hj') with ⟨-, hnew⟩ | ⟨j, hj, hrow⟩
              · exact nomatch (status_newRow hnew).symm.trans hcl.2.1
              · rcases hrow.claimed_cases hcl.2.1 with ⟨hs, he⟩ | ⟨hs, -, -⟩
                · refine absurd ⟨?_, hs, he ▸ hcl.2.2⟩ (hfl.2 j (Table.mem_of_get hj))
                  exact (Table.key_of_get hj).symm ▸ hcl.1
                · exact ⟨j, j', hj, Table.get_key hj', hs, hcl.2.1⟩
            refine List.mem_append_right _ (List.mem_map.mpr ⟨j'.id, ?_, ?_⟩)
            · exact mem_newlyClaimed.mpr hclaims
            · rcases length_claims_after (c := c) (h.inSync j'.id) with ⟨-, hlen⟩ | ⟨hno, -⟩
              · simp only [Claiming.make, Claiming.leave]
                rw [hlen, Nat.add_sub_cancel]
              · exact absurd hclaims hno
        have hback := hmade.enter hb rfl hflight hr
        simpa [Claiming.enter, Claiming.make, Claiming.leave] using hback
    case h_2 => exact nomatch hs
  | readBack w =>
    rw [Claiming.step] at hs
    split at hs
    case h_1 call jobIds hf =>
      obtain rfl := Option.some.inj hs
      exact h.readBack hf
    case h_2 => exact nomatch hs
  | abort w =>
    rw [Claiming.step] at hs
    split at hs
    case h_1 =>
      obtain rfl := Option.some.inj hs
      exact h.leave w
    case h_2 => exact nomatch hs
  | other c =>
    obtain rfl := Option.some.inj hs
    exact h.other hok

end Steps

/-- **The invariant holds in every state of every run**, with row locks and without. -/
theorem Claiming.inv_of_reaches {skipLocked : Bool} {s : Claiming}
    (h : Reaches Claiming.step (Claiming.Ok skipLocked) Claiming.init s) : s.Inv := by
  refine h.invariant Claiming.Inv Claiming.inv_init ?_
  intro s a s' _ ih hok hs
  exact ih.step hok hs

/-! ## A call nobody interrupts -/

/-- The steps of one call of `claim_jobs`, on a database that holds no locks. -/
def Claiming.OwnStep (r : ClaimRequest) (mint : JobId → AttemptId) (_ : Claiming) :
    Claiming.Step → Prop
  | .begin r' mint' => r' = r ∧ mint' = mint
  | .scan w locked => w = r.workerId ∧ locked = []
  | .update w | .readBack w => w = r.workerId
  | .abort _ | .other _ => False

section Uninterrupted

variable {r : ClaimRequest} {mint : JobId → AttemptId}

/-- A worker that enters a phase twice is in the second. -/
@[simp] theorem Claiming.enter_enter (s : Claiming) (w : WorkerId) (call call' : ClaimCall)
    (phase phase' : Phase) :
    (s.enter w call phase).enter w call' phase' = s.enter w call' phase' := by
  simp [Claiming.enter]

/-- A worker is in the phase it entered. -/
@[simp] theorem Claiming.flying_enter (s : Claiming) (w : WorkerId) (call : ClaimCall)
    (phase : Phase) : (s.enter w call phase).flying w = some (call, phase) := by
  simp [Claiming.enter]

/-- The scans of a call select what `_select_due_ids` does. -/
theorem Claiming.reaches_selected (s : Claiming) (call : ClaimCall) (hr : call.request = r)
    (ranges : List (ProcessingJob → Bool)) (jobIds : List JobId) :
    Reaches Claiming.step (Claiming.OwnStep r mint)
      (s.enter r.workerId call (.scanning jobIds ranges))
      (s.enter r.workerId call (.selected (ranges.foldl (fun jobIds bounds =>
        jobIds ++ scanRange s.db (r.Due call.selected) bounds [] (r.limit - jobIds.length))
        jobIds))) := by
  have hstep : Claiming.OwnStep r mint (s.enter r.workerId call (.scanning jobIds ranges))
      (.scan r.workerId []) := ⟨rfl, rfl⟩
  induction ranges generalizing jobIds with
  | nil =>
    refine Reaches.refl.tail hstep ?_
    simp [Claiming.step]
  | cons bounds rest ih =>
    by_cases hfull : r.limit - jobIds.length = 0
    · -- a full batch ends the loop, and the scans left out would have found nothing
      have hrest (ranges : List (ProcessingJob → Bool)) : ranges.foldl (fun jobIds bounds =>
          jobIds ++ scanRange s.db (r.Due call.selected) bounds [] (r.limit - jobIds.length))
          jobIds = jobIds := by
        induction ranges with
        | nil => rfl
        | cons bounds rest ih =>
          rw [List.foldl_cons, hfull]
          simpa [scanRange] using ih
      rw [hrest]
      refine Reaches.refl.tail hstep ?_
      simp [Claiming.step, hr, hfull]
    · refine Reaches.trans (Reaches.refl.tail hstep ?_) (ih _ ⟨rfl, rfl⟩)
      simp [Claiming.step, hr, hfull]
      rfl

/-- **With nobody between its steps, a call does what `claim_jobs` does**: it leaves the same tables
and returns the same jobs. -/
theorem Claiming.reaches_claimJobs {s : Claiming} (hidle : s.flying r.workerId = none)
    {rows : List ProcessingJob} {db' : Db} (h : claimJobs s.db r mint = .ok (rows, db')) :
    ∃ s', Reaches Claiming.step (Claiming.OwnStep r mint) s s' ∧ s'.db = db' ∧
      s'.flying = s.flying ∧
      s'.returned.map Transition.jobId =
        s.returned.map Transition.jobId ++ rows.map ProcessingJob.id := by
  rw [claimJobs] at h
  cases hsel : normalizeQueueSelector r.queues with
  | error e => simp [hsel, bind, Except.bind] at h
  | ok selected =>
    cases hcur : checkQueueCursor r.queueCursor with
    | error e => simp [hsel, hcur, bind, Except.bind] at h
    | ok u =>
      simp only [hsel, hcur, bind, Except.bind] at h
      set call : ClaimCall := ⟨s.begun.length, r, selected, mint⟩ with hcall
      set s₁ : Claiming := { s with begun := s.begun ++ [call] } with hs₁
      have hbegin : s.step (.begin r mint) =
          some (s₁.enter r.workerId call (.scanning [] (scanRanges r.queueCursor))) := by
        simp [Claiming.step, hidle, hsel, hcur, hs₁, Claiming.enter, hcall]
      have hscan := @Claiming.reaches_selected r mint s₁ call rfl (scanRanges r.queueCursor) []
      have hids : selectDueIds s.db (r.Due selected) r.queueCursor r.limit [] =
        (scanRanges r.queueCursor).foldl (fun jobIds bounds =>
          jobIds ++ scanRange s₁.db (r.Due call.selected) bounds [] (r.limit - jobIds.length)) [] :=
        rfl
      rw [← hids] at hscan
      set jobIds := selectDueIds s.db (r.Due selected) r.queueCursor r.limit [] with hjobIds
      have hselected := (Reaches.refl.tail ⟨rfl, rfl⟩ hbegin).trans hscan
      have hown (s : Claiming) : Claiming.OwnStep r mint s (.update r.workerId) := rfl
      have hown' (s : Claiming) : Claiming.OwnStep r mint s (.readBack r.workerId) := rfl
      have hrestore (f : WorkerId → Option (ClaimCall × Phase))
          (hf : f = Function.update s.flying r.workerId none) : f = s.flying := by
        rw [hf, ← hidle, Function.update_eq_self]
      split at h
      -- nothing is due, so that no update is sent
      case isTrue hempty =>
        obtain ⟨rfl, rfl⟩ := Prod.mk.inj (Except.ok.inj h)
        have hupdate : (s₁.enter r.workerId call (.selected jobIds)).step (.update r.workerId) =
            some ((s₁.enter r.workerId call (.selected jobIds)).leave r.workerId) := by
          simp [Claiming.step, hempty]
        refine ⟨_, hselected.tail (hown _) hupdate, rfl, hrestore _ ?_, ?_⟩
        · simp [Claiming.leave, Claiming.enter, hs₁]
        · simp [Claiming.leave, Claiming.enter, hs₁]
      case isFalse hne =>
        obtain ⟨rfl, rfl⟩ := Prod.mk.inj (Except.ok.inj h)
        set c : Call := .claimSelected r jobIds mint
        set s₂ := ((s₁.enter r.workerId call (.selected jobIds)).make (some call.serial) c).enter
          r.workerId call (.committed jobIds) with hs₂
        have hupdate : (s₁.enter r.workerId call (.selected jobIds)).step (.update r.workerId) =
            some s₂ := by
          simp [Claiming.step, hne, hs₂, hcall, c]
        set s₃ : Claiming := { s₂.leave r.workerId with
          returned := s₂.returned ++ (claimReadBack s₂.db r.workerId jobIds).map fun j =>
            ⟨some call.serial, j.id, (s₂.claims j.id).grants.length - 1⟩ } with hs₃
        have hread : s₂.step (.readBack r.workerId) = some s₃ := by
          simp [Claiming.step, hs₂, hcall, hs₃]
        refine ⟨s₃, (hselected.tail (hown _) hupdate).tail (hown' _) hread, rfl, hrestore _ ?_, ?_⟩
        · simp [hs₃, hs₂, Claiming.leave, Claiming.make, Claiming.enter, hs₁]
        · rw [hs₃, List.map_append, List.map_map]
          rfl

end Uninterrupted

/-! ## Exclusivity -/

/-- Of all transitions noted exactly one is a given claim of a job. -/
theorem Claiming.Inv.filter_taken {s : Claiming} (h : s.Inv) {t : Transition} (ht : t ∈ s.taken) :
    s.taken.filter (fun t' => t'.jobId = t.jobId ∧ t'.claim = t.claim) = [t] := by
  have hnd : (s.taken.filter fun t' => t'.jobId = t.jobId ∧ t'.claim = t.claim).Nodup := by
    have hclaims : ((s.taken.filter (·.jobId = t.jobId)).map Transition.claim).Nodup := by
      rw [h.taken]
      exact List.nodup_range
    refine (List.Nodup.of_map _ hclaims).sublist ?_
    exact List.monotone_filter_right _ fun t' ht' => by simp_all
  refine List.perm_singleton.mp ((List.perm_ext_iff_of_nodup hnd (List.nodup_singleton t)).mpr ?_)
  intro t'
  rw [List.mem_filter, List.mem_singleton, decide_eq_true_eq]
  constructor
  · rintro ⟨ht', hid, hclaim⟩
    exact h.eq_of_taken ht' ht hid hclaim
  · rintro rfl
    exact ⟨ht, rfl, rfl⟩

/-- **What a read-back returns**: the jobs that are still under a claim its own call made. -/
theorem Claiming.Inv.mem_readBack {s : Claiming} (h : s.Inv) {w : WorkerId} {call : ClaimCall}
    {jobIds : List JobId} (hf : s.flying w = some (call, .committed jobIds)) (id : JobId) :
    id ∈ (claimReadBack s.db call.request.workerId jobIds).map ProcessingJob.id ↔
      ∃ k, s.Live id k ∧ (⟨some call.serial, id, k⟩ : Transition) ∈ s.taken := by
  obtain ⟨hb, rfl, hfl, -⟩ := h.flying w call _ hf
  have hsync := h.inSync id
  constructor
  · intro hm
    obtain ⟨j, hj, rfl⟩ := List.mem_map.mp hm
    obtain ⟨hrow, hcl⟩ := mem_claimReadBack.mp hj
    rw [Table.get_key hrow] at hsync
    obtain ⟨l, hl, -⟩ := hsync.2 hcl.2.1
    have hlen := hsync.1.numbered.serial_last hl
    refine ⟨_, ⟨j, Table.get_key hrow, hcl.2.1, l, hl, rfl⟩, ?_⟩
    have htaken := hfl.2 j hrow hcl
    rwa [← hlen, Nat.add_sub_cancel] at htaken
  · rintro ⟨k, ⟨j, hj, hs, l, hl, rfl⟩, ht⟩
    have hj : s.db.jobs.get id = some j := hj
    rw [hj] at hsync
    obtain ⟨l', hl', -, -, hlock⟩ := hsync.2 hs
    obtain rfl : l = l' := Option.some.inj (hl.symm.trans hl')
    -- the call that made the live claim is this one, so the row carries its worker
    obtain ⟨made, hmade⟩ := h.made id l (GrantLog.last?_mem hl)
    have heq := h.eq_of_taken hmade.taken ht rfl rfl
    simp only [Transition.mk.injEq, Option.some.injEq, and_true] at heq
    obtain rfl := h.eq_of_serial hmade.begun hb heq
    have hid := Table.key_of_get hj
    refine List.mem_map.mpr ⟨j, mem_claimReadBack.mpr ⟨Table.mem_of_get hj, ?_, hs, ?_⟩, hid⟩
    · exact hid.symm ▸ hfl.1 _ ht rfl
    · rw [← hlock, hmade.worker]

/-- **Claim exclusivity.** In every state of every run, with row locks and without:

* each transition of a job to `claimed` was made by exactly one call, which opened exactly one attempt
  row for it when it records attempts, and nothing else opened any;
* no transition is returned twice, and none by another call than the one that made it;
* a read-back returns exactly the jobs that are still under a claim its own call made. -/
theorem claim_exclusivity {skipLocked : Bool} {s : Claiming}
    (h : Reaches Claiming.step (Claiming.Ok skipLocked) Claiming.init s) :
    (∀ id, ∀ g ∈ (s.claims id).grants, ∃ call ∈ s.begun,
      s.taken.filter (fun t => t.jobId = id ∧ t.claim = g.serial) =
        [⟨some call.serial, id, g.serial⟩] ∧
      g.holder.lockedBy = some call.request.workerId ∧
      if call.request.recordAttempts then ∃ a, OpenedBy s.db.attempts id g a
      else g.holder.opened = []) ∧
    (∀ t ∈ s.taken, ∃ g ∈ (s.claims t.jobId).grants, g.serial = t.claim) ∧
    (∀ a ∈ s.db.attempts.rows, ∃ g ∈ (s.claims a.jobId).grants,
      OpenedBy s.db.attempts a.jobId g a) ∧
    s.returned.Nodup ∧ (∀ t ∈ s.returned, t ∈ s.taken) ∧
    ∀ w call jobIds, s.flying w = some (call, .committed jobIds) →
      let rows := claimReadBack s.db call.request.workerId jobIds
      (rows.map ProcessingJob.id).Nodup ∧ (∀ row ∈ rows, s.db.jobs.get row.id = some row) ∧
      ∀ id, id ∈ rows.map ProcessingJob.id ↔
        ∃ k, s.Live id k ∧ (⟨some call.serial, id, k⟩ : Transition) ∈ s.taken := by
  have hinv := Claiming.inv_of_reaches h
  refine ⟨?_, fun t ht => hinv.grant_of_taken ht, hinv.source, hinv.nodup, hinv.returned, ?_⟩
  · intro id g hg
    obtain ⟨call, hmade⟩ := hinv.made id g hg
    exact ⟨call, hmade.begun, hinv.filter_taken hmade.taken, hmade.worker, hmade.opened⟩
  · intro w call jobIds hf
    refine ⟨nodup_claimReadBack _ _ _, fun row hrow => ?_, hinv.mem_readBack hf⟩
    exact Table.get_key (mem_claimReadBack.mp hrow).1

instance (s : Claiming) (a : Claiming.Step) : Decidable (Claiming.Ok false s a) :=
  match a with
  | .scan _ locked => inferInstanceAs (Decidable (locked = []))
  | .update w => inferInstanceAs (Decidable (∀ flight ∈ s.flying w, _))
  | .other c => inferInstanceAs (Decidable (c.isClaim = false))
  | .begin _ _ | .readBack _ | .abort _ => isTrue trivial

/-- The steps of a worker's call up to its update. -/
def Claiming.sampleSelect (workerId : WorkerId) (now : Instant) (attemptId : AttemptId) :
    List Claiming.Step :=
  [.begin { workerId := workerId, limit := 1, leaseSeconds := 60, now := now } fun _ => attemptId,
    .scan workerId [], .scan workerId []]

/-- Two workers select the same job; the second updates first. -/
def Claiming.raceSteps : List Claiming.Step :=
  [Claiming.Step.other (sampleInsert 3)] ++ Claiming.sampleSelect "first" 1 "a" ++
    Claiming.sampleSelect "second" 2 "b" ++ [Claiming.Step.update "second", Claiming.Step.update "first"]

/-- The state after that. -/
def Claiming.race : Claiming :=
  runTo Claiming.step (Claiming.Ok false) Claiming.init Claiming.raceSteps

/-- The read-back of the first worker does not return the job, though the worker selected it. -/
theorem claim_exclusivity_race :
    ∃ call, Claiming.race.flying "first" = some (call, .committed ["job"]) ∧
      "job" ∉ (claimReadBack Claiming.race.db call.request.workerId ["job"]).map
        ProcessingJob.id := by
  have hr : Reaches Claiming.step (Claiming.Ok false) Claiming.init Claiming.race :=
    reaches_runTo (by decide +kernel)
  have hflight : ((Claiming.race.flying "first").any fun flight =>
      flight.1.serial == 0 && flight.2.updated == some ["job"]) = true := by
    decide +kernel
  obtain ⟨⟨call, phase⟩, hf, hphase⟩ := (Option.any_eq_true _ _).mp hflight
  obtain ⟨hserial, hphase⟩ := Bool.and_eq_true_iff.mp hphase
  obtain rfl : phase = .committed ["job"] := by
    cases phase with
    | scanning jobIds ranges | selected jobIds => cases eq_of_beq hphase
    | committed jobIds => rw [Option.some.inj (eq_of_beq hphase)]
  have hserial : call.serial = 0 := eq_of_beq hserial
  refine ⟨call, hf, fun hm => ?_⟩
  obtain ⟨k, -, ht⟩ := (((claim_exclusivity hr).2.2.2.2.2 "first" call _ hf).2.2 "job").mp hm
  have htaken : ∀ t ∈ Claiming.race.taken, t.call = some 1 := by
    decide +kernel
  have hcall := htaken _ ht
  rw [hserial] at hcall
  cases hcall

end Jasil.Jobs
