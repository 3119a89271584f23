import Jasil.Jobs.Ledger

/-! # Claim fencing
Workers make their calls with the job, the worker and the attempt number of a claim, long after it
perhaps, and the database matches nothing else. The same three can come back with another claim, by
a release (which gives the number back) and by a replay (which starts the numbers again). What keeps
a late call off a claim that is not its own is what the runner and its lease keeper guarantee:

* a worker makes no call for a claim it returned in a release;
* a worker makes no call for a claim from before a replay once it has claimed the job after it.

**`Fenced`** is a run in which every renewal, settlement and release is made for a claim its worker
took (`MayName`); a call is one step, taken when it reaches the database. `owned_iff_live` is the
fencing: the row shows the numbers of the claim exactly while that very claim is live. -/

namespace Jasil.Jobs

/-- The claims a renewal, a settlement or a release is made for, as the call names them. -/
def Call.names : Call → List ClaimGeneration
  | .renew jobAttempts workerId _ _ | .release jobAttempts workerId _ _ =>
    jobAttempts.map fun p => ⟨p.1, workerId, p.2⟩
  | .settle _ gen _ => [gen]
  | _ => []

/-- A call, with which claim of its job each of the claims it names is. -/
structure Issued where
  call : Call
  serials : List ℕ := []

/-- The claims a call is made for, each with its number in the record. -/
def Issued.about (a : Issued) : List (ClaimGeneration × ℕ) := a.call.names.zip a.serials

/-- The recorded run, with the claims that were returned and those that were settled so far, as the
calls said. -/
structure Fenced extends Recorded where
  returned : List (JobId × ℕ)
  settled : List (JobId × ℕ)

namespace Fenced

/-- A fresh installation. -/
def init : Fenced := ⟨Recorded.init, [], []⟩

/-- **Claim number `k` is one the worker took and may still make a call for.** -/
def MayName (s : Fenced) (gen : ClaimGeneration) (k : ℕ) : Prop :=
  ∃ g ∈ (s.claims gen.jobId).grants,
    (g.serial = k ∧ g.token = gen.attempt ∧ g.holder.lockedBy = some gen.workerId) ∧
      (gen.jobId, k) ∉ s.returned ∧
      ∀ g' ∈ (s.claims gen.jobId).grants,
        g'.holder.lockedBy = some gen.workerId → g'.epoch ≤ g.epoch

instance (s : Fenced) (gen : ClaimGeneration) (k : ℕ) : Decidable (s.MayName gen k) :=
  inferInstanceAs (Decidable (∃ _ ∈ _, _ ∧ _ ∧ ∀ _ ∈ _, _))

/-- Every claim the call is made for is one its worker may name; a `dict` names a job once. -/
def MayIssue (s : Fenced) (a : Issued) : Prop :=
  (a.call.names.map ClaimGeneration.jobId).Nodup ∧ a.serials.length = a.call.names.length ∧
    ∀ p ∈ a.about, s.MayName p.1 p.2

instance (s : Fenced) (a : Issued) : Decidable (s.MayIssue a) :=
  inferInstanceAs (Decidable (_ ∧ _ ∧ ∀ _ ∈ _, _))

/-- The claims a call settles, unless it was told that the job has nothing left to ask for. -/
def settles (db : Db) (a : Issued) : List (JobId × ℕ) :=
  match a.call with
  | .settle s gen args =>
    match (s.run db gen args).1 with
    | some status => if status.isExhausted then [] else a.about.map fun p => (p.1.jobId, p.2)
    | none => a.about.map fun p => (p.1.jobId, p.2)
  | _ => []

/-- Make the call. -/
def after (s : Fenced) (a : Issued) : Fenced where
  toRecorded := s.toRecorded.after a.call
  returned :=
    s.returned ++ if a.call.isRelease then a.about.map fun p => (p.1.jobId, p.2) else []
  settled := s.settled ++ settles s.db a

/-- One call as a step of a run. -/
def step (s : Fenced) (a : Issued) : Option Fenced := some (s.after a)

end Fenced

/-! ## The invariant -/

/-- **The record fits the rows, and what it shows as given back was returned by its worker.** -/
structure Fenced.Inv (s : Fenced) : Prop where
  inSync : ∀ id, InSync (s.db.jobs.get id) (s.claims id)
  returned : ∀ id, ∀ g ∈ (s.claims id).grants, g.revoked = true → (id, g.serial) ∈ s.returned

section Fencing

variable {s : Fenced} (h : s.Inv)
include h

/-- A row that shows the numbers of a claim its worker may name is under that very claim. -/
theorem Fenced.Inv.live_of_owned {gen : ClaimGeneration} {k : ℕ} (hn : s.MayName gen k)
    (ho : Owned s.db gen) : s.Live gen.jobId k := by
  obtain ⟨g, hg, ⟨rfl, htok, hlock⟩, hret, hepoch⟩ := hn
  obtain ⟨j, hj, -, hs, hl, hatt⟩ := ho
  have hj : s.db.jobs.get gen.jobId = some j := hj
  have hsync := h.inSync gen.jobId
  rw [hj] at hsync
  obtain ⟨l, hlast, hstand, hltok, hllock⟩ := hsync.2 hs
  have hlmem := GrantLog.last?_mem hlast
  -- the live claim is the worker's own, so it is of no later epoch than the claim named
  have hle : l.epoch ≤ g.epoch := hepoch l hlmem (hllock.trans hl)
  have hge : g.epoch ≤ l.epoch := by
    rw [hstand.1]
    exact hsync.1.epochs g hg
  have hrev : g.revoked = false := by
    by_contra hr
    exact hret (h.returned _ g hg (by simpa using hr))
  have hgstand : g ∈ (s.claims gen.jobId).standing :=
    GrantLog.mem_standing.mpr ⟨hg, (le_antisymm hge hle).trans hstand.1, hrev⟩
  have hlstand : l ∈ (s.claims gen.jobId).standing := GrantLog.mem_standing.mpr ⟨hlmem, hstand⟩
  -- and a token identifies a standing claim
  have heq : l = g := by
    refine hsync.1.eq_of_token hlstand hgstand ?_
    rw [hltok, htok, hatt]
  exact ⟨j, hj, hs, l, hlast, congrArg Grant.serial heq⟩

/-- The row of a live claim shows its numbers. -/
theorem Fenced.Inv.owned_of_live {gen : ClaimGeneration} {k : ℕ} (hn : s.MayName gen k)
    (hlive : s.Live gen.jobId k) : Owned s.db gen := by
  obtain ⟨g, hg, ⟨rfl, htok, hlock⟩, -, -⟩ := hn
  obtain ⟨j, hj, hs, l, hlast, hserial⟩ := hlive
  have hj : s.db.jobs.get gen.jobId = some j := hj
  have hsync := h.inSync gen.jobId
  rw [hj] at hsync
  obtain ⟨l', hlast', -, hltok, hllock⟩ := hsync.2 hs
  obtain rfl : l = l' := Option.some.inj (hlast.symm.trans hlast')
  have heq : l = g := hsync.1.numbered.eq_of_serial (GrantLog.last?_mem hlast) hg hserial
  subst heq
  exact ⟨j, hj, Table.key_of_get hj, hs, hllock.symm.trans hlock, hltok.symm.trans htok⟩

/-- **Fencing**: the row shows the numbers of a claim exactly while that very claim is live. -/
theorem Fenced.Inv.owned_iff_live {gen : ClaimGeneration} {k : ℕ} (hn : s.MayName gen k) :
    Owned s.db gen ↔ s.Live gen.jobId k :=
  ⟨h.live_of_owned hn, h.owned_of_live hn⟩

end Fencing

/-! ## Every run -/

/-- A release that changes the status of a row was made for the claim it shows. -/
theorem RowStep.owned_of_release {c : Call} {j j' : ProcessingJob} (h : RowStep c j j')
    (hrel : c.isRelease = true) (hs : j'.status ≠ j.status) : ∃ gen ∈ c.names, OwnedClaim gen j := by
  cases h with
  | keep => exact absurd rfl hs
  | release hh =>
    obtain ⟨attempt, hm, ho⟩ := heldClaim_iff.mp hh
    exact ⟨_, List.mem_map.mpr ⟨_, hm, rfl⟩, ho⟩
  | _ => exact nomatch hrel

/-- Every claim a call names is paired with its number. -/
theorem Fenced.MayIssue.exists_about {s : Fenced} {a : Issued} (h : s.MayIssue a)
    {gen : ClaimGeneration} (hg : gen ∈ a.call.names) : ∃ k, (gen, k) ∈ a.about := by
  obtain ⟨i, hi, rfl⟩ := List.getElem_of_mem hg
  have hi' : i < a.serials.length := h.2.1 ▸ hi
  have hzip : i < (a.call.names.zip a.serials).length := by simp [hi, hi']
  have hmem := List.getElem_mem hzip
  rw [List.getElem_zip] at hmem
  exact ⟨a.serials[i], hmem⟩

/-- It holds before the first call. -/
theorem Fenced.inv_init : Fenced.init.Inv where
  inSync _ := rfl
  returned _ _ hg := nomatch hg

/-- **One call keeps the invariant.** -/
theorem Fenced.Inv.after {s : Fenced} (h : s.Inv) {a : Issued} (ha : s.MayIssue a) :
    (s.after a).Inv where
  inSync := Recorded.inSync_after h.inSync
  returned := by
    intro id g hg hrev
    -- a claim that was given back before the call
    have hold (g' : Grant Claimant) (hg' : g' ∈ (s.claims id).grants) (hrev' : g'.revoked = true) :
        (id, g'.serial) ∈ (s.after a).returned :=
      List.mem_append_left _ (h.returned id g' hg' hrev')
    have hsync := h.inSync id
    simp only [Fenced.after, Recorded.after] at hg
    cases hj : s.db.jobs.get id with
    | none =>
      rw [hj] at hg
      exact hold g hg hrev
    | some j =>
      obtain ⟨j', hj', hrow⟩ := run_get_some a.call hj
      rw [hj, hj'] at hg
      rw [hj] at hsync
      have hseen := hsync.observed hrow (openedRows s.db (a.call.run s.db) id)
      generalize observeRow a.call.isRelease _ (some j) (some j') (s.claims id) = log' at hseen hg
      cases hseen with
      | same _ _ => exact hold g hg hrev
      | replayed _ _ _ => exact hold g hg hrev
      | claimed _ _ _ =>
        rcases GrantLog.mem_issue.mp hg with hg | rfl
        · exact hold g hg hrev
        · cases hrev
      | released hrel hs hs' _ hlast =>
        obtain ⟨g₀, hg₀, rfl⟩ := GrantLog.mem_revoke.mp hg
        split at hrev
        case isFalse hne =>
          rw [if_neg hne]
          exact hold g₀ hg₀ hrev
        case isTrue he =>
          rw [if_pos he]
          -- the release was made for the claim the row shows, which is the live one
          obtain ⟨gen, hgen, ho⟩ := hrow.owned_of_release hrel (by simp [hs, hs'])
          obtain ⟨k, hk⟩ := ha.exists_about hgen
          have hid : gen.jobId = id := ho.1.symm.trans (Table.key_of_get hj)
          have hown : Owned s.db gen := ⟨j, hid ▸ hj, ho⟩
          obtain ⟨_, _, _, l, hl, rfl⟩ := h.live_of_owned (ha.2.2 _ hk) hown
          rw [hid] at hl
          obtain rfl := Option.some.inj (hlast.symm.trans hl)
          refine List.mem_append_right _ ?_
          rw [if_pos hrel]
          exact List.mem_map.mpr ⟨_, hk, by simp [hid, he]⟩

/-- **The invariant holds in every state of a run that keeps the runner's guarantees.** -/
theorem Fenced.inv_of_reaches {s : Fenced}
    (h : Reaches Fenced.step Fenced.MayIssue Fenced.init s) : s.Inv := by
  refine h.invariant Fenced.Inv Fenced.inv_init ?_
  intro s a s' _ ih ha hstep
  obtain rfl := Option.some.inj hstep
  exact ih.after ha

/-! ## What the calls report -/

/-- A batch of claims that a worker may name names each job once. -/
theorem nodup_jobAttempts {jobAttempts : JobAttempts} {workerId : WorkerId}
    (h : ((jobAttempts.map fun p => (⟨p.1, workerId, p.2⟩ : ClaimGeneration)).map
      ClaimGeneration.jobId).Nodup) : (jobAttempts.map Prod.fst).Nodup := by
  rwa [List.map_map] at h

/-- A claim in a batch with distinct jobs is held exactly when its row shows it. -/
theorem heldClaim_iff_ownedClaim {jobAttempts : JobAttempts} {workerId : WorkerId} {id : JobId}
    {attempt : ℤ} (hnd : (jobAttempts.map Prod.fst).Nodup) (hm : (id, attempt) ∈ jobAttempts)
    {j : ProcessingJob} (hid : j.id = id) :
    HeldClaim jobAttempts workerId j ↔ OwnedClaim ⟨id, workerId, attempt⟩ j := by
  rw [heldClaim_iff, hid]
  constructor
  · rintro ⟨attempt', hm', ho⟩
    have heq := List.inj_on_of_nodup_map hnd hm hm' rfl
    rw [(Prod.mk.inj heq).2]
    exact ho
  · exact fun ho => ⟨attempt, hm, ho⟩

/-- A renewal reports the claims whose rows show them. -/
theorem mem_renewLeases {db : Db} {jobAttempts : JobAttempts} {workerId : WorkerId}
    {leaseSeconds : ℤ} {now : Instant} {id : JobId} {attempt : ℤ}
    (hnd : (jobAttempts.map Prod.fst).Nodup) (hm : (id, attempt) ∈ jobAttempts) :
    id ∈ (renewLeases db jobAttempts workerId leaseSeconds now).1 ↔
      Owned db ⟨id, workerId, attempt⟩ := by
  have hne : jobAttempts.isEmpty = false := by
    cases jobAttempts with
    | nil => exact nomatch hm
    | cons p rest => rfl
  have hheld {j : ProcessingJob} (hid : j.id = id) :
      HeldClaim jobAttempts workerId j ↔ OwnedClaim ⟨id, workerId, attempt⟩ j :=
    heldClaim_iff_ownedClaim hnd hm hid
  simp only [renewLeases, hne, Bool.false_eq_true, if_false, List.mem_map, Table.mem_select,
    Table.mem_update]
  constructor
  · rintro ⟨j', ⟨⟨j, hj, rfl⟩, hh⟩, hid⟩
    by_cases hh₀ : HeldClaim jobAttempts workerId j
    · rw [if_pos hh₀] at hid
      exact owned_iff.mpr ⟨j, hj, (hheld hid).mp hh₀⟩
    · rw [if_neg hh₀] at hh
      exact absurd hh hh₀
  · intro ho
    obtain ⟨j, hj, ho⟩ := owned_iff.mp ho
    have hh := (hheld ho.1).mpr ho
    refine ⟨_, ⟨⟨j, hj, rfl⟩, ?_⟩, ?_⟩
    · rw [if_pos hh]
      exact hh
    · rw [if_pos hh]
      exact ho.1

/-- A release reports how many of its claims had rows that show them. -/
theorem releaseLeases_fst {db : Db} {jobAttempts : JobAttempts} {workerId : WorkerId}
    {now : Instant} {recordAttempts : Bool} (hnd : (jobAttempts.map Prod.fst).Nodup) :
    (releaseLeases db jobAttempts workerId now recordAttempts).1 =
      jobAttempts.countP fun p => Owned db ⟨p.1, workerId, p.2⟩ := by
  have hcount : db.jobs.rowcount (HeldClaim jobAttempts workerId) =
      jobAttempts.countP fun p => Owned db ⟨p.1, workerId, p.2⟩ := by
    -- both count the same jobs, each once
    have hperm : List.Perm ((db.jobs.select (HeldClaim jobAttempts workerId)).map ProcessingJob.id)
        ((jobAttempts.filter fun p => Owned db ⟨p.1, workerId, p.2⟩).map Prod.fst) := by
      refine (List.perm_ext_iff_of_nodup ?_ ?_).mpr fun id => ?_
      · exact db.jobs.nodup.sublist (List.filter_sublist.map _)
      · exact hnd.sublist (List.filter_sublist.map _)
      · simp only [List.mem_map, Table.mem_select, List.mem_filter, decide_eq_true_eq]
        constructor
        · rintro ⟨j, ⟨hj, hh⟩, rfl⟩
          obtain ⟨attempt, hm, ho⟩ := heldClaim_iff.mp hh
          exact ⟨(j.id, attempt), ⟨hm, owned_iff.mpr ⟨j, hj, ho⟩⟩, rfl⟩
        · rintro ⟨⟨id, attempt⟩, ⟨hm, ho⟩, rfl⟩
          obtain ⟨j, hj, ho⟩ := owned_iff.mp ho
          exact ⟨j, ⟨hj, (heldClaim_iff_ownedClaim hnd hm ho.1).mpr ho⟩, ho.1⟩
    have hlen := hperm.length_eq
    rwa [List.length_map, List.length_map, Table.select, ← List.countP_eq_length_filter,
      ← List.countP_eq_length_filter] at hlen
  rw [releaseLeases]
  split
  case isTrue he => simp [List.isEmpty_iff.mp he]
  case isFalse => exact hcount

/-- A settling call reports that the claim is lost exactly when its row does not show it. -/
theorem Settle.run_fst_eq_none_iff (st : Settle) {db : Db} {gen : ClaimGeneration}
    {args : SettleArgs} : (st.run db gen args).1 = none ↔ ¬ Owned db gen := by
  constructor
  · rintro hnone ⟨j, hj, ho⟩
    rw [st.run_of_owned args hj ho] at hnone
    split at hnone <;> exact nomatch hnone
  · intro ho
    rw [st.run_of_not_owned args ho]

/-- A verdict that leaves the row alone says so in its report, and every other takes it out of
`claimed`. -/
theorem Settle.apply_verdict (st : Settle) (now : Instant) (j : ProcessingJob) :
    ((st.verdict now j).status.isExhausted = true → (st.verdict now j).apply j = j) ∧
      ((st.verdict now j).status.isExhausted = false →
        ((st.verdict now j).apply j).status ≠ .claimed) := by
  cases st with
  | complete => exact ⟨by rintro ⟨⟩, fun _ => by rintro ⟨⟩⟩
  | fail text base ceiling jitter =>
    rw [Settle.verdict, failVerdict]
    split <;> exact ⟨by rintro ⟨⟩, fun _ => by rintro ⟨⟩⟩
  | defer text retryAt maxDeferrals =>
    rw [Settle.verdict, deferVerdict]
    split
    · exact ⟨fun _ => rfl, by rintro ⟨⟩⟩
    · exact ⟨by rintro ⟨⟩, fun _ => by rintro ⟨⟩⟩
  | continued text availableAt maxContinuations =>
    rw [Settle.verdict, continueVerdict]
    split
    · exact ⟨fun _ => rfl, by rintro ⟨⟩⟩
    · exact ⟨by rintro ⟨⟩, fun _ => by rintro ⟨⟩⟩

/-- What a settling call on an owned claim reports, and what it makes of the row. -/
theorem Settle.of_owned (st : Settle) {db : Db} {gen : ClaimGeneration} (args : SettleArgs)
    (ho : Owned db gen) :
    ∃ j status, db.jobs.get gen.jobId = some j ∧ j.status = .claimed ∧
      (st.run db gen args).1 = some status ∧
      ∃ j', (st.run db gen args).2.jobs.get gen.jobId = some j' ∧ SettleStep args.now st j j' ∧
        (status.isExhausted = true → j' = j) ∧
        (status.isExhausted = false → j'.status ≠ .claimed) := by
  obtain ⟨j, hj, ho⟩ := ho
  have hj : db.jobs.get gen.jobId = some j := hj
  refine ⟨j, (st.verdict args.now j).status, hj, ho.2.1, ?_, (st.verdict args.now j).apply j, ?_,
    settleStep_apply st args.now j, st.apply_verdict args.now j⟩
  · rw [st.run_of_owned args hj ho]
    cases st.verdict args.now j <;> rfl
  · rw [get_settle, hj]
    simp [ho]

/-! ## Fencing -/

/-- **Claim fencing.** In every state of a run that keeps the runner's guarantees, a call made for a
claim reports success and writes the row if and only if that very claim is still live. A renewal
names the claims it renewed, a release counts the claims it released; a settlement reports nothing
for a claim that is lost, and one that reports the job exhausted changes nothing. -/
theorem claim_fencing {s : Fenced} (h : Reaches Fenced.step Fenced.MayIssue Fenced.init s) :
    (∀ jobAttempts workerId leaseSeconds now serials,
      s.MayIssue ⟨.renew jobAttempts workerId leaseSeconds now, serials⟩ →
        ∀ p ∈ (Issued.mk (.renew jobAttempts workerId leaseSeconds now) serials).about,
          (p.1.jobId ∈ (renewLeases s.db jobAttempts workerId leaseSeconds now).1 ↔
            s.Live p.1.jobId p.2) ∧
          (renewLeases s.db jobAttempts workerId leaseSeconds now).2.jobs.get p.1.jobId =
            (s.db.jobs.get p.1.jobId).map fun j =>
              if s.Live p.1.jobId p.2 then j.renew leaseSeconds now else j) ∧
    (∀ jobAttempts workerId now recordAttempts serials,
      s.MayIssue ⟨.release jobAttempts workerId now recordAttempts, serials⟩ →
        (releaseLeases s.db jobAttempts workerId now recordAttempts).1 =
          (Issued.mk (.release jobAttempts workerId now recordAttempts) serials).about.countP
            (fun p => s.Live p.1.jobId p.2) ∧
        ∀ p ∈ (Issued.mk (.release jobAttempts workerId now recordAttempts) serials).about,
          (releaseLeases s.db jobAttempts workerId now recordAttempts).2.jobs.get p.1.jobId =
            (s.db.jobs.get p.1.jobId).map fun j =>
              if s.Live p.1.jobId p.2 then j.release now else j) ∧
    (∀ st gen args k, s.MayIssue ⟨.settle st gen args, [k]⟩ →
      let report := (st.run s.db gen args).1
      let row := s.db.jobs.get gen.jobId
      let row' := (st.run s.db gen args).2.jobs.get gen.jobId
      (report ≠ none ↔ s.Live gen.jobId k) ∧
      (report = none → row' = row) ∧
      ∀ status, report = some status →
        (status.isExhausted = true → row' = row) ∧
        (status.isExhausted = false → ∃ j j', row = some j ∧ row' = some j' ∧
          SettleStep args.now st j j' ∧ j.status = .claimed ∧ j'.status ≠ .claimed)) := by
  have hinv := Fenced.inv_of_reaches h
  -- in a batch of the worker's claims, the rows held are those of the live ones
  have hheld (ja : JobAttempts) (w : WorkerId) (p : ClaimGeneration × ℕ)
      (hnd : (ja.map Prod.fst).Nodup)
      (hp : p.1 ∈ ja.map fun q => (⟨q.1, w, q.2⟩ : ClaimGeneration)) (hn : s.MayName p.1 p.2)
      (set : ProcessingJob → ProcessingJob) :
      ((s.db.jobs.get p.1.jobId).map fun j => if HeldClaim ja w j then set j else j) =
        (s.db.jobs.get p.1.jobId).map fun j => if s.Live p.1.jobId p.2 then set j else j := by
    obtain ⟨q, hq, hqp⟩ := List.mem_map.mp hp
    refine Option.map_congr fun j hj => ?_
    have hid : j.id = q.1 := by
      rw [Table.key_of_get hj, ← hqp]
    have hiff : HeldClaim ja w j ↔ s.Live p.1.jobId p.2 := by
      rw [heldClaim_iff_ownedClaim hnd hq hid, ← hinv.owned_iff_live hn, hqp]
      refine ⟨fun ho => ⟨j, hj, ho⟩, ?_⟩
      rintro ⟨j', hj', ho⟩
      rwa [Option.some.inj (hj.symm.trans hj')]
    simp only [hiff]
  refine ⟨?_, ?_, ?_⟩
  · intro ja w lease now serials hissue p hp
    have hnd := nodup_jobAttempts hissue.1
    have hn := hissue.2.2 p hp
    have hmem := (List.of_mem_zip hp).1
    refine ⟨?_, ?_⟩
    · obtain ⟨q, hq, hqp⟩ := List.mem_map.mp hmem
      rw [← hinv.owned_iff_live hn, ← hqp]
      exact mem_renewLeases hnd hq
    · rw [get_renewLeases]
      exact hheld ja w p hnd hmem hn _
  · intro ja w now recordAttempts serials hissue
    have hnd := nodup_jobAttempts hissue.1
    refine ⟨?_, fun p hp => ?_⟩
    · -- each claim of the batch is counted with its number
      set a : Issued := ⟨.release ja w now recordAttempts, serials⟩ with ha
      have hzip : a.about.map Prod.fst = a.call.names := List.map_fst_zip hissue.2.1.ge
      have hcount : a.about.countP (fun p => s.Live p.1.jobId p.2) =
          a.about.countP fun p => Owned s.db p.1 := by
        refine List.countP_congr fun p hp => ?_
        simp only [decide_eq_true_eq]
        exact (hinv.owned_iff_live (hissue.2.2 p hp)).symm
      have hnames : a.call.names.countP (fun gen => Owned s.db gen) =
          ja.countP fun p => Owned s.db ⟨p.1, w, p.2⟩ := by
        rw [ha, Call.names, List.countP_map]
        rfl
      rw [releaseLeases_fst hnd, ← hnames, hcount, ← hzip, List.countP_map]
      rfl
    · rw [get_releaseLeases]
      exact hheld ja w p hnd (List.of_mem_zip hp).1 (hissue.2.2 p hp) _
  · intro st gen args k hissue
    have hn : s.MayName gen k := hissue.2.2 (gen, k) (List.mem_singleton.mpr rfl)
    have hlive := hinv.owned_iff_live hn
    intro report row row'
    refine ⟨?_, ?_, ?_⟩
    · rw [← hlive, ne_eq, st.run_fst_eq_none_iff, not_not]
    · intro hnone
      have hno := st.run_fst_eq_none_iff.mp hnone
      simp only [row', row]
      rw [st.run_of_not_owned args hno, jobs_settleClaim_none]
    · intro status hstatus
      have ho : Owned s.db gen := by
        by_contra hno
        cases (st.run_fst_eq_none_iff.mpr hno).symm.trans hstatus
      obtain ⟨j, status', hj, hs, hst, j', hj', hstep, hexh, hend⟩ := st.of_owned args ho
      obtain rfl := Option.some.inj (hst.symm.trans hstatus)
      -- an exhausted job is left as it is, any other is settled
      refine ⟨fun he => ?_, fun he => ⟨j, j', hj, hj', hstep, hs, hend he⟩⟩
      simp only [row', row]
      rw [hj', hj, hexh he]

/-- The job is claimed by one worker, reclaimed when its lease has run out, and claimed by another. -/
def Fenced.reclaimedRun : Fenced :=
  [⟨sampleInsert 3, []⟩, ⟨sampleClaim "first" 1 "a", []⟩, ⟨.reclaim 70000000 10 ["job"], []⟩,
    ⟨sampleClaim "second" 70000001 "b", []⟩].foldl Fenced.after Fenced.init

/-- The first worker completes its claim while the second runs the job: the job is left alone, and
the worker is told. -/
theorem claim_fencing_late :
    Fenced.reclaimedRun.Live "job" 1 ∧
      (Settle.complete.run Fenced.reclaimedRun.db ⟨"job", "first", 1⟩ { now := 80000000 }).1 =
        none := by
  have hr : Reaches Fenced.step Fenced.MayIssue Fenced.init Fenced.reclaimedRun :=
    (((Reaches.refl.tail (by decide) rfl).tail (by decide) rfl).tail (by decide) rfl).tail
      (by decide) rfl
  refine ⟨by decide +kernel, ?_⟩
  have hlate := ((claim_fencing hr).2.2 .complete ⟨"job", "first", 1⟩ { now := 80000000 } 0
    (by decide +kernel)).1
  by_contra hnone
  exact absurd (hlate.mp hnone) (by decide +kernel)

end Jasil.Jobs
