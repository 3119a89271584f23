import Jasil.Jobs.AttemptHistory

/-! # Late settlements
A handler can outlast its lease. When it returns, its worker settles a claim it no longer owns, and
`_finish_attempt` has to say of the attempt row whether the job was taken meanwhile (`superseded`:
the handler ran twice) or not (`lease_expired`). It compares the job's `attempts` with the number of
the claim.

* **`Fenced.Unsettled`**: the row of a claim that its worker may settle and has not settled can still
  be settled, so a late settlement always finds the row of its own claim (`late_target`).
* **`double_runs_recorded`**: the comparison is right exactly when the counter was not started again
  since by a replay, or has passed the number all the same, or nobody took the job.

After a replay the numbers of the earlier claims say nothing: a job that ran twice is recorded as one
whose lease ran out (`double_runs_recorded_not_after_replay`). -/

namespace Jasil.Jobs

/-- **The row tells the double run**: it ends `superseded` when the job was claimed again, and else
`lease_expired` with the end it had. -/
def TellsDoubleRun (claimedAgain : Prop) (row row' : JobAttempt) : Prop :=
  (row'.outcome = some .superseded ↔ claimedAgain) ∧
    (row'.outcome ≠ some .superseded →
      row'.outcome = some .leaseExpired ∧ row'.finishedAt = row.finishedAt)

/-! ## What a worker may name -/

section Names

variable {s : Fenced} (h : s.Inv)
include h

/-- A worker may name no claim that it gave back. -/
theorem Fenced.Inv.not_revoked {id : JobId} {g : Grant Claimant} (hg : g ∈ (s.claims id).grants)
    (hret : (id, g.serial) ∉ s.returned) : g.revoked = false := by
  by_contra hrev
  exact hret (h.returned id g hg (by simpa using hrev))

/-- **The job, the worker and the attempt number identify a claim** among those the worker may name. -/
theorem Fenced.Inv.serial_eq {gen gen' : ClaimGeneration} {k k' : ℕ} (hn : s.MayName gen k)
    (hn' : s.MayName gen' k') (hgen : gen = gen') : k = k' := by
  subst hgen
  obtain ⟨g, hg, ⟨rfl, htok, hlock⟩, hret, hepoch⟩ := hn
  obtain ⟨g', hg', ⟨rfl, htok', hlock'⟩, hret', hepoch'⟩ := hn'
  have hsync := h.inSync gen.jobId
  cases hj : s.db.jobs.get gen.jobId with
  | none =>
    rw [hj] at hsync
    have hempty : s.claims gen.jobId = .empty := hsync
    rw [hempty] at hg
    exact nomatch hg
  | some j =>
    rw [hj] at hsync
    -- both are of the last epoch the worker claimed in, and there a token is used once
    have hep : g.epoch = g'.epoch := le_antisymm (hepoch' g hg hlock) (hepoch g' hg' hlock')
    have hrev := h.not_revoked hg hret
    have hrev' := h.not_revoked hg' hret'
    rcases Nat.lt_trichotomy g.serial g'.serial with hlt | heq | hlt
    · have := hsync.1.token_lt g hg g' hg' hrev hep hlt
      omega
    · exact heq
    · have := hsync.1.token_lt g' hg' g hg hrev' hep.symm hlt
      omega

end Names

/-- Every claim recorded before a call is recorded after it. -/
theorem exists_ident_after {s : Recorded} {c : Call} {id : JobId} {g : Grant Claimant}
    (hg : g ∈ (s.claims id).grants) :
    ∃ g' ∈ ((s.after c).claims id).grants, g'.ident = g.ident := by
  simp only [Recorded.after]
  cases hj : s.db.jobs.get id with
  | none => exact ⟨g, hg, rfl⟩
  | some j =>
    obtain ⟨j', hj', -⟩ := run_get_some c hj
    rw [hj']
    simp only [observeRow]
    split
    case h_1 => exact ⟨g, GrantLog.mem_issue.mpr (Or.inl hg), rfl⟩
    case h_2 => exact ⟨g, hg, rfl⟩
    case h_3 =>
      split
      · exact GrantLog.exists_of_map_ident (GrantLog.map_ident_revoke _ _) hg
      · exact ⟨g, hg, rfl⟩
    case h_4 => exact ⟨g, hg, rfl⟩

/-- A worker may name less and less: what it may name after a call, of the claims there were before,
it could name before. -/
theorem Fenced.MayName.before {s : Fenced} {a : Issued} {gen : ClaimGeneration} {k : ℕ}
    (h : (s.after a).MayName gen k) (hnum : ((s.after a).claims gen.jobId).Numbered)
    {g : Grant Claimant} (hg : g ∈ (s.claims gen.jobId).grants) (hk : g.serial = k) :
    s.MayName gen k := by
  obtain ⟨g', hg', ⟨hk', htok, hlock⟩, hret, hepoch⟩ := h
  obtain ⟨g₁, hg₁, he⟩ := exists_ident_after (c := a.call) hg
  have he' := he
  simp only [Grant.ident, Prod.mk.injEq] at he'
  obtain ⟨hserial, hep, htok₁, hholder⟩ := he'
  obtain rfl : g₁ = g' := hnum.eq_of_serial hg₁ hg' (by omega)
  refine ⟨g, hg, ⟨hk, ?_, ?_⟩, ?_, ?_⟩
  · rw [← htok₁, htok]
  · rw [← hholder, hlock]
  · exact fun hm => hret (List.mem_append_left _ hm)
  · intro g₂ hg₂ hlock₂
    obtain ⟨g₂', hg₂', he₂⟩ := exists_ident_after (c := a.call) hg₂
    simp only [Grant.ident, Prod.mk.injEq] at he₂
    obtain ⟨-, hep₂, -, hholder₂⟩ := he₂
    rw [← hep, ← hep₂]
    refine hepoch g₂' hg₂' ?_
    rw [hholder₂, hlock₂]

/-! ## The row of a claim that was not settled -/

/-- **A claim that its worker may settle, and did not, has a row that can be settled.** -/
def Fenced.Unsettled (s : Fenced) : Prop :=
  ∀ gen k, s.MayName gen k → (gen.jobId, k) ∉ s.settled → ∀ g ∈ (s.claims gen.jobId).grants,
    g.serial = k → ∀ a, OpenedBy s.db.attempts gen.jobId g a → Settleable false a

/-- A row that is closed after a call was there before it, and went through one step. -/
theorem History.attemptStep_of_closed {s : Fenced} (h : History s.toRecorded) (hinv : s.Inv)
    {c : Call} (hrec : s.Records c) {a' : JobAttempt}
    (ha' : a' ∈ (s.toRecorded.after c).db.attempts.rows) (hend : a'.finishedAt ≠ none) :
    ∃ a ∈ s.db.attempts.rows, SameAttempt a a' ∧ AttemptStep s.toRecorded c a a' := by
  by_cases hc : c.isClaim = false
  · obtain ⟨a, ha, rfl⟩ := row_of_after hc ha'
    refine ⟨a, ha, onAttempt_same s.db c a, h.attemptStep hinv.inSync ?_ ha⟩
    rintro jobAttempts workerId outcome now rfl
    exact hrec.1
  · -- the rows a claim opens are open
    rcases hrec.claim_cases (by simpa using hc) with
      hself | ⟨r, jobIds, mint, hrun, hrecord, hfresh, hnone, -⟩
    · rw [hself] at ha'
      exact ⟨a', ha', .rfl, .keep⟩
    · rcases row_of_claim hrun hrecord hfresh hnone ha' with hold | ⟨j, -, -, rfl⟩
      · exact ⟨a', hold, .rfl, .keep⟩
      · exact absurd rfl hend

/-- A claim that a call settles is noted, unless the call reports the job exhausted. -/
theorem Fenced.mem_settles {db : Db} {st : Settle} {gen : ClaimGeneration} {args : SettleArgs}
    {serials : List ℕ} {p : JobId × ℕ}
    (hp : p ∈ (Issued.mk (.settle st gen args) serials).about.map fun q => (q.1.jobId, q.2))
    (hrun : ∀ status, (st.run db gen args).1 = some status → status.isExhausted = false) :
    p ∈ Fenced.settles db ⟨.settle st gen args, serials⟩ := by
  rw [Fenced.settles]
  dsimp only
  cases hst : (st.run db gen args).1 with
  | none => exact hp
  | some status =>
    simpa only [hrun status hst, Bool.false_eq_true, if_false] using hp

/-- **The call that ends a claim** is an expired lease, or was made for that very claim. -/
theorem Fenced.MayIssue.ends_live {s : Fenced} (hinv : s.Inv) {a : Issued} (ha : s.MayIssue a)
    {id : JobId} {j j' : ProcessingJob} {l : Grant Claimant} {outcome : Outcome} {now : Instant}
    (hj : s.db.jobs.get id = some j) (hs : j.status = .claimed)
    (hj' : (s.after a).db.jobs.get id = some j') (hs' : j'.status ≠ .claimed)
    (hl : (s.claims id).last? = some l) (hend : a.call.ending j'.status = some (outcome, now)) :
    outcome = .leaseExpired ∨ (id, l.serial) ∈ (s.after a).returned ∨
      (id, l.serial) ∈ (s.after a).settled := by
  obtain ⟨j₁, hj₁, hrow⟩ := run_get_some a.call hj
  obtain rfl := Option.some.inj (hj₁.symm.trans hj')
  have hid := Table.key_of_get hj
  have hnamed {gen : ClaimGeneration} (hgen : gen ∈ a.call.names) (ho : OwnedClaim gen j) :
      (id, l.serial) ∈ a.about.map fun p => (p.1.jobId, p.2) := by
    obtain ⟨k, hk⟩ := ha.exists_about hgen
    have hjob : gen.jobId = id := ho.1.symm.trans hid
    obtain ⟨_, _, _, l', hl', rfl⟩ :=
      hinv.live_of_owned (ha.2.2 _ hk) (owned_iff.mpr ⟨j, Table.mem_of_get hj, ho⟩)
    rw [hjob] at hl'
    obtain rfl := Option.some.inj (hl.symm.trans hl')
    exact List.mem_map.mpr ⟨_, hk, by rw [hjob]⟩
  obtain ⟨call, serials⟩ := a
  cases call with
  | release jobAttempts workerId now' recordAttempts =>
    obtain ⟨gen, hgen, ho⟩ := hrow.owned_of_release rfl fun he => hs' (he.trans hs)
    exact Or.inr (Or.inl (List.mem_append_right _ (hnamed hgen ho)))
  | settle st gen args =>
    cases hrow with
    | keep => exact absurd hs hs'
    | settle ho hset =>
      refine Or.inr (Or.inr (List.mem_append_right _ ?_))
      refine Fenced.mem_settles (hnamed (List.mem_singleton_self gen) ho) fun status hst => ?_
      have howned : Owned s.db gen := owned_iff.mpr ⟨j, Table.mem_of_get hj, ho⟩
      have hjob : gen.jobId = id := ho.1.symm.trans hid
      obtain ⟨j₀, status', hj₀, -, hst', j₂, hj₂, -, hexh, -⟩ := st.of_owned args howned
      obtain rfl := Option.some.inj (hst'.symm.trans hst)
      rw [hjob] at hj₀ hj₂
      obtain rfl := Option.some.inj (hj₀.symm.trans hj)
      obtain rfl := Option.some.inj (hj₂.symm.trans hj₁)
      -- a job that has nothing left to ask for stays under its claim
      by_contra hstatus
      exact hs' (by rw [hexh (by simpa using hstatus), hs])
  | reclaim now' limit scan =>
    simp only [Call.ending, Option.some.injEq, Prod.mk.injEq] at hend
    exact Or.inl hend.1.symm
  | _ => cases hend

/-- **One recorded call keeps it.** -/
theorem Fenced.Unsettled.after {s : Fenced} (hinv : s.Inv) (h : History s.toRecorded)
    (hu : s.Unsettled) {a : Issued} (ha : s.MayRecord a) : (s.after a).Unsettled := by
  intro gen k hn' hset' g' hg' hk a' ha'
  by_cases hend : a'.finishedAt = none
  · exact Or.inl (Or.inl hend)
  have hinv' := hinv.after ha.1
  have h' : History (s.after a).toRecorded := h.afterRecords hinv.inSync ha.2
  -- the row was there before, and so was its claim
  obtain ⟨b, hb, hsame, hstep⟩ := h.attemptStep_of_closed hinv ha.2 (Table.mem_of_get ha'.row) hend
  have hid : b.jobId = gen.jobId := hsame.jobId.symm.trans ha'.jobId
  obtain ⟨g₀, hg₀, hop⟩ := h.source b hb
  rw [hid] at hg₀ hop
  obtain ⟨g₁, hg₁, he⟩ := exists_ident_after (c := a.call) hg₀
  simp only [Grant.ident, Prod.mk.injEq] at he
  obtain ⟨hserial, -, htok, hholder⟩ := he
  have hop₁ : OpenedBy (s.after a).db.attempts gen.jobId g₁ a' := by
    refine ⟨ha'.row, ?_, ha'.jobId, ?_, ?_, ?_⟩
    · rw [hholder, hop.opened, hsame.id]
    · rw [hholder, hop.worker, hsame.workerId]
    · rw [hsame.attempt, hop.attempt, htok]
    · rw [hholder, hop.claimedAt, hsame.claimedAt]
  obtain rfl := h'.grant_eq (hinv'.inSync _).numbered hg₁ hg' hop₁ ha'
  have hk₀ : g₀.serial = k := hserial.symm.trans hk
  have hn := hn'.before (hinv'.inSync _).numbered hg₀ hk₀
  have hset : (gen.jobId, k) ∉ s.settled := fun hm => hset' (List.mem_append_left _ hm)
  cases hstep with
  | keep => exact hu gen k hn hset g₀ hg₀ hk₀ _ hop
  | start now hopen => exact absurd hopen hend
  | abandon now hopen => exact Or.inl (Or.inr rfl)
  | ended hj hs hj' hs' hl hopl hending hout _ =>
    rw [hid] at hj hj' hl hopl
    obtain rfl := h.grant_eq (hinv.inSync _).numbered (GrantLog.last?_mem hl) hg₀ hopl hop
    rcases ha.1.ends_live hinv hj hs hj' hs' hl hending with rfl | hret | hsettled
    · exact Or.inr ⟨rfl, hout⟩
    · rw [hk₀] at hret
      obtain ⟨_, _, ⟨hk', -⟩, hnret, -⟩ := hn'
      exact absurd hret hnret
    · rw [hk₀] at hsettled
      exact absurd hsettled hset'
  | late hcall hno ht =>
    -- the claim that was settled carries the same numbers, so it is this one
    exfalso
    obtain ⟨call, serials⟩ := a
    dsimp only at hcall
    subst hcall
    rename_i st gen₂ args
    obtain ⟨k₂, hk₂⟩ := ha.1.exists_about (List.mem_singleton_self gen₂)
    obtain ⟨b', hb', hof, -⟩ := mem_finishTarget ht
    obtain rfl := Option.some.inj (hb'.symm.trans hop.row)
    obtain ⟨g, hg, ⟨hgk, hgtok, hglock⟩, -⟩ := id hn
    obtain rfl := (hinv.inSync _).numbered.eq_of_serial hg hg₀ (hgk.trans hk₀.symm)
    have hgen : gen = gen₂ := by
      obtain ⟨hjob, hworker, hattempt⟩ := hof
      refine ClaimGeneration.ext (hid.symm.trans hjob) ?_ ?_
      · exact (Option.some.inj (hop.worker.symm.trans hglock)).symm.trans hworker
      · rw [← hgtok, ← hop.attempt, hattempt]
    have hkk : k = k₂ := hinv.serial_eq hn (ha.1.2.2 _ hk₂) hgen
    subst hgen hkk
    refine hset' (List.mem_append_right _ (Fenced.mem_settles ?_ fun status hst => ?_))
    · exact List.mem_map.mpr ⟨_, hk₂, rfl⟩
    · rw [st.run_fst_eq_none_iff.mpr hno] at hst
      cases hst

/-- It holds before the first call. -/
theorem unsettled_init : Fenced.init.Unsettled := fun _ _ _ _ _ hg => nomatch hg

/-- **In every state of a run that records its attempts a claim that was not settled can be.** -/
theorem unsettled_of_reaches {s : Fenced}
    (h : Reaches Fenced.step Fenced.MayRecord Fenced.init s) : s.Unsettled := by
  refine h.invariant Fenced.Unsettled unsettled_init ?_
  intro s a s' hr ih ha hstep
  obtain rfl := Option.some.inj hstep
  obtain ⟨hinv, hhist⟩ := history_of_reaches hr
  exact ih.after hinv hhist ha

/-! ## A late settlement -/

section Late

variable {s : Fenced} (hinv : s.Inv) (h : History s.toRecorded) (hu : s.Unsettled)
  {gen : ClaimGeneration} {k : ℕ} (hn : s.MayName gen k)
include hinv h hu hn

/-- **A late settlement finds the row of its own claim**, closed. -/
theorem Fenced.Unsettled.late_target (hset : (gen.jobId, k) ∉ s.settled)
    (hlost : ¬ s.Live gen.jobId k) :
    ∃ j g row, s.db.jobs.get gen.jobId = some j ∧ g ∈ (s.claims gen.jobId).grants ∧
      g.serial = k ∧ g.token = gen.attempt ∧ g.revoked = false ∧
      OpenedBy s.db.attempts gen.jobId g row ∧ row.finishedAt ≠ none ∧
      finishTarget s.db.attempts gen.jobId gen.workerId gen.attempt false = some row.id := by
  have hsettleable := hu gen k hn hset
  obtain ⟨g, hg, ⟨rfl, htok, hlock⟩, hret, hepoch⟩ := hn
  obtain ⟨row, hrow⟩ := h.opened gen.jobId g hg
  have hrev := hinv.not_revoked hg hret
  have hsync := hinv.inSync gen.jobId
  cases hj : s.db.jobs.get gen.jobId with
  | none =>
    rw [hj] at hsync
    have hempty : s.claims gen.jobId = .empty := hsync
    rw [hempty] at hg
    exact nomatch hg
  | some j =>
    rw [hj] at hsync
    refine ⟨j, g, row, rfl, hg, rfl, htok, hrev, hrow, ?_, ?_⟩
    · -- an open row would be that of the live claim
      intro hopen
      obtain ⟨j', hj', hs, l, hl, hop⟩ := h.openLive row (Table.mem_of_get hrow.row) hopen
      rw [hrow.jobId] at hj' hl hop
      obtain rfl := h.grant_eq hsync.1.numbered (GrantLog.last?_mem hl) hg hop hrow
      exact hlost ⟨j', hj', hs, l, hl, rfl⟩
    · have hnewest : ∀ g' ∈ (s.claims gen.jobId).grants,
          g'.holder.lockedBy = g.holder.lockedBy → g'.token = g.token → g'.serial ≤ g.serial := by
        intro g' hg' hlock' htok'
        by_contra hlt
        have hser : g.serial < g'.serial := not_le.mp hlt
        have hle := hepoch g' hg' (hlock'.trans hlock)
        have hge := hsync.1.epoch_mono g hg g' hg' hser
        have := hsync.1.token_lt g hg g' hg' hrev (by omega) hser
        omega
      have htarget := h.target_eq hinv.inSync hg hrow (hsettleable g hg rfl row hrow) hnewest
      rwa [hrow.attempt, htok, Option.some.inj (hrow.worker.symm.trans hlock)] at htarget

end Late

/-- **Double runs are recorded** exactly while the numbers still tell: in every state of a run that
records its attempts, a worker that settles a claim it lost leaves on the row of that claim whether
the job was claimed again, if and only if no replay came since, or the counter has passed the number
of the claim all the same, or the job was not claimed again. -/
theorem double_runs_recorded {s : Fenced}
    (h : Reaches Fenced.step Fenced.MayRecord Fenced.init s) {st : Settle} {gen : ClaimGeneration}
    {args : SettleArgs} {k : ℕ} (hmay : s.MayRecord ⟨.settle st gen args, [k]⟩)
    (hlost : ¬ s.Live gen.jobId k) (hset : (gen.jobId, k) ∉ s.settled) :
    ∃ j g row row', s.db.jobs.get gen.jobId = some j ∧ g ∈ (s.claims gen.jobId).grants ∧
      g.serial = k ∧ OpenedBy s.db.attempts gen.jobId g row ∧
      (st.run s.db gen args).2.attempts.get row.id = some row' ∧
      (TellsDoubleRun ((s.claims gen.jobId).Regranted g) row row' ↔
        g.epoch = (s.claims gen.jobId).epoch ∨ gen.attempt < j.attempts ∨
          ¬ (s.claims gen.jobId).Regranted g) := by
  obtain ⟨hinv, hhist⟩ := history_of_reaches h
  have hn : s.MayName gen k := hmay.1.2.2 (gen, k) (List.mem_singleton.mpr rfl)
  have hno : ¬ Owned s.db gen := fun ho => hlost (hinv.live_of_owned hn ho)
  obtain ⟨j, g, row, hj, hg, hk, htok, hrev, hrow, hend, htarget⟩ :=
    (unsettled_of_reaches h).late_target hinv hhist hn hset hlost
  refine ⟨j, g, row, st.onAttempt s.db gen args row, hj, hg, hk, hrow, ?_, ?_⟩
  · exact get_after (s := s.toRecorded) (c := .settle st gen args) rfl hrow.row
  rw [st.onAttempt_of_not_owned args hno, if_pos ⟨hmay.2.1, htarget⟩]
  -- what is written depends on the counter alone
  have hover : Overtaken s.db gen.jobId gen.attempt ↔ gen.attempt < j.attempts := by
    simp [Overtaken, hj]
  have htells (again : Prop) : TellsDoubleRun again row
      (row.finish (finishValues s.db gen.jobId gen.attempt args.now st.late false).1
        (finishValues s.db gen.jobId gen.attempt args.now st.late false).2 args.durationMs
        st.error) ↔ (gen.attempt < j.attempts ↔ again) := by
    rw [finishValues, if_neg Bool.false_ne_true, ← hover]
    by_cases ho : Overtaken s.db gen.jobId gen.attempt
    · simp [TellsDoubleRun, JobAttempt.finish, ho]
    · obtain ⟨t, ht⟩ := Option.ne_none_iff_exists'.mp hend
      simp [TellsDoubleRun, JobAttempt.finish, ho, ht]
  have hsync := hinv.inSync gen.jobId
  rw [hj] at hsync
  have hpassed : gen.attempt < j.attempts → (s.claims gen.jobId).Regranted g := fun hlt =>
    hsync.1.regranted_of_lt hg hrev (htok ▸ hlt)
  rw [htells]
  constructor
  · intro hiff
    by_cases hlt : gen.attempt < j.attempts
    · exact Or.inr (Or.inl hlt)
    · exact Or.inr (Or.inr fun hagain => hlt (hiff.mpr hagain))
  · rintro (hep | hlt | hnot)
    · rw [hsync.1.regranted_iff (GrantLog.mem_standing.mpr ⟨hg, hep, hrev⟩), htok]
    · exact ⟨hpassed, fun _ => hlt⟩
    · exact ⟨hpassed, fun hagain => absurd hagain hnot⟩

/-- The first worker's lease runs out, and another worker takes the job. -/
def Fenced.takenRun : Fenced :=
  [⟨sampleInsert 3, []⟩, ⟨sampleClaim "first" 1 "a", []⟩, ⟨.reclaim 70000000 10 ["job"], []⟩,
    ⟨sampleClaim "second" 70000001 "b", []⟩].foldl Fenced.after Fenced.init

/-- The first worker's handler returns at last: its row says that the job ran twice. -/
theorem double_runs_recorded_taken :
    ∃ row' ∈ (Settle.complete.run Fenced.takenRun.db ⟨"job", "first", 1⟩
      { now := 80000000 }).2.attempts.rows, row'.outcome = some .superseded := by
  have hr : Reaches Fenced.step Fenced.MayRecord Fenced.init Fenced.takenRun :=
    (((Reaches.refl.tail (by decide +kernel) rfl).tail (by decide +kernel) rfl).tail
      (by decide +kernel) rfl).tail (by decide +kernel) rfl
  have hmay : Fenced.takenRun.MayRecord
      ⟨.settle .complete ⟨"job", "first", 1⟩ { now := 80000000 }, [0]⟩ := by
    decide +kernel
  obtain ⟨j, g, row, row', -, hg, hk, -, hrow', hiff⟩ :=
    double_runs_recorded hr hmay (by decide +kernel) (by decide +kernel)
  have hepoch : ∀ g ∈ (Fenced.takenRun.claims "job").grants,
      g.epoch = (Fenced.takenRun.claims "job").epoch := by
    decide +kernel
  have hagain : ∀ g ∈ (Fenced.takenRun.claims "job").grants, g.serial = 0 →
      (Fenced.takenRun.claims "job").Regranted g := by
    decide +kernel
  exact ⟨row', Table.mem_of_get hrow',
    (hiff.mpr (Or.inl (hepoch g hg))).1.mpr (hagain g hg hk)⟩

/-- The first worker's lease runs out on the last attempt; the dead letter is replayed, and another
worker takes the job. -/
def Fenced.replayedRun : Fenced :=
  [⟨sampleInsert 1, []⟩, ⟨sampleClaim "first" 1 "a", []⟩, ⟨.reclaim 70000000 10 ["job"], []⟩,
    ⟨.replay "job" 80000000, []⟩, ⟨sampleClaim "second" 80000001 "b", []⟩].foldl
    Fenced.after Fenced.init

/-- The job runs twice at once, and the row of the first run says its lease ran out: the second claim
carries the number of the first. -/
theorem double_runs_recorded_not_after_replay :
    ¬ ∀ s st gen args k, Reaches Fenced.step Fenced.MayRecord Fenced.init s →
      s.MayRecord ⟨.settle st gen args, [k]⟩ → ¬ s.Live gen.jobId k →
      (gen.jobId, k) ∉ s.settled → ∀ g ∈ (s.claims gen.jobId).grants, g.serial = k →
      ∀ row row', OpenedBy s.db.attempts gen.jobId g row →
        (st.run s.db gen args).2.attempts.get row.id = some row' →
        TellsDoubleRun ((s.claims gen.jobId).Regranted g) row row' := by
  intro hclaim
  have hr : Reaches Fenced.step Fenced.MayRecord Fenced.init Fenced.replayedRun :=
    ((((Reaches.refl.tail (by decide +kernel) rfl).tail (by decide +kernel) rfl).tail
      (by decide +kernel) rfl).tail (by decide +kernel) rfl).tail (by decide +kernel) rfl
  obtain ⟨g, hg, hk⟩ : ∃ g ∈ (Fenced.replayedRun.claims "job").grants, g.serial = 0 := by
    decide +kernel
  obtain ⟨row, hrow⟩ := (history_of_reaches hr).2.opened "job" g hg
  have hrow' := get_after (s := Fenced.replayedRun.toRecorded)
    (c := .settle .complete ⟨"job", "first", 1⟩ { now := 90000000 }) rfl hrow.row
  have htells := hclaim _ .complete ⟨"job", "first", 1⟩ { now := 90000000 } 0 hr
    (by decide +kernel) (by decide +kernel) (by decide +kernel) g hg hk row _ hrow hrow'
  have hagain : ∀ g ∈ (Fenced.replayedRun.claims "job").grants, g.serial = 0 →
      (Fenced.replayedRun.claims "job").Regranted g := by
    decide +kernel
  have hout : ∀ row' ∈ (Settle.complete.run Fenced.replayedRun.db ⟨"job", "first", 1⟩
      { now := 90000000 }).2.attempts.rows, row'.outcome ≠ some .superseded := by
    decide +kernel
  exact hout _ (Table.mem_of_get hrow') (htells.1.mpr (hagain g hg hk))

end Jasil.Jobs
