import Jasil.Jobs.Deliveries

/-! # The lease of a callback
A claim holds its dead letter off for the longest that a callback is expected to take. One that takes longer
overlaps the next, and no two overlap before that.

* **`LeaseInv`**: while a claim is in hand its dead letter is held off, or a later claim was made after its
  lease.
* **`callbacks_apart`**: two callbacks for one dead letter overlap only after the lease of the first. -/

namespace Jasil.Jobs

/-- `CLAIM_LEASE_SECONDS`, in microseconds. -/
def claimLease : ℤ := timedelta claimLeaseSeconds

/-- The row is the dead letter of the claim, and nobody was notified of it. -/
structure CallbackClaim.OwedBy (c : CallbackClaim) (j : ProcessingJob) : Prop where
  dead : j.status = .deadLetter
  deadAt : j.completedAt = c.deadAt
  notified : j.deadLetterNotifiedAt = none

/-- A later claim of the same dead letter. -/
structure CallbackClaim.Follows (c' c : CallbackClaim) : Prop where
  jobId : c'.jobId = c.jobId
  deadAt : c'.deadAt = c.deadAt
  number : c.number < c'.number

/-- **While a claim is in hand** its dead letter is held off until the lease ends, or a later claim was made
after that. -/
structure LeaseInv (s : Sweeping) : Prop where
  lease : ∀ p, ∀ held ∈ heldOf (s.sweeps p), ∀ c ∈ s.claims.map CallbackClaim.bare, c.number = held.1 →
    ∀ j ∈ s.db.jobs.get c.jobId, c.OwedBy j →
      (j.deadLetterNotifyAfter = some (c.askedAt + claimLease)
          ∧ ∀ c' ∈ s.claims.map CallbackClaim.bare, ¬c'.Follows c)
        ∨ ∃ c' ∈ s.claims.map CallbackClaim.bare, c'.Follows c ∧ c.askedAt + claimLease ≤ c'.claimedAt
  claimed : ∀ c ∈ s.claims.map CallbackClaim.bare, c.claimedAt ≤ s.clock
  asked : ∀ p, ∀ picked ∈ pickedOf (s.sweeps p), picked.1 ≤ s.clock
  apart : ∀ p q, ∀ held ∈ heldOf (s.sweeps p), ∀ held' ∈ heldOf (s.sweeps q),
    ∀ c ∈ s.claims.map CallbackClaim.bare, ∀ c' ∈ s.claims.map CallbackClaim.bare, c.number = held.1 →
      c'.number = held'.1 → c'.Follows c → c.askedAt + claimLease ≤ c'.claimedAt

section Leases

variable {s s' : Sweeping} {p : ℕ} {sweep : Sweep} {held : ℕ × DeadLetterJob} {j : ProcessingJob}
  {f : CallbackClaim → CallbackClaim} {number : ℕ}

/-- **A step without a claim**: what it writes is the outcome of a claim that later ones do not follow. -/
theorem LeaseInv.keep (h : LeaseInv s) (hheld : ∀ q, ∀ held ∈ heldOf (s'.sweeps q), held ∈ heldOf (s.sweeps q))
    (hclaims : s'.claims.map CallbackClaim.bare = s.claims.map CallbackClaim.bare) (hclock : s.clock ≤ s'.clock)
    (hasked : ∀ q, ∀ picked ∈ pickedOf (s'.sweeps q), picked.1 ≤ s'.clock)
    (hrows : ∀ q, ∀ held ∈ heldOf (s'.sweeps q), ∀ c ∈ s.claims.map CallbackClaim.bare, c.number = held.1 →
      ∀ j' ∈ s'.db.jobs.get c.jobId, c.OwedBy j' → ∃ j ∈ s.db.jobs.get c.jobId, c.OwedBy j
        ∧ (j'.deadLetterNotifyAfter = j.deadLetterNotifyAfter ∨ ∃ c' ∈ s.claims.map CallbackClaim.bare,
          c'.Follows c)) :
    LeaseInv s' := by
  refine ⟨fun q held hmem c hc hnumber j' hj' howed => ?_, fun c hc => ?_, hasked,
    fun p q held hmem held' hmem' => ?_⟩
  · rw [hclaims] at hc ⊢
    obtain ⟨j, hj, howed₀, hsame⟩ := hrows q held hmem c hc hnumber j' hj' howed
    rcases h.lease q held (hheld q held hmem) c hc hnumber j hj howed₀ with ⟨hafter, hnewest⟩ | hlater
    · rcases hsame with hsame | ⟨c', hc', hfollows⟩
      · exact .inl ⟨hsame.trans hafter, hnewest⟩
      · exact absurd hfollows (hnewest c' hc')
    · exact .inr hlater
  · rw [hclaims] at hc
    exact (h.claimed c hc).trans hclock
  · rw [hclaims]
    exact h.apart p q held (hheld p held hmem) held' (hheld q held' hmem')

/-- **A claim**: whatever is in hand of the same dead letter, its lease has ended. -/
theorem LeaseInv.claim (h : LeaseInv s) (hinv : DeliveryInv s) {jobs : Table ProcessingJob.id}
    {seen : List Letter}
    {now : Instant} {row : ProcessingJob} {r : CallbackRequest} (hpicked : (now, row) ∈ pickedOf (s.sweeps p))
    (hj : s.db.jobs.get row.id = some j) (hclaimable : CallbackClaimable row now j) (hnow : r.now = now)
    (hlease : r.leaseSeconds = claimLeaseSeconds)
    (hget : ∀ id, jobs.get id = (s.db.jobs.get id).map fun j => if j.id = row.id then r.claimRow j else j) :
    LeaseInv { s.set p (some { sweep with turn := .claimed s.claims.length (claimedCallback row) }) with
      db := { s.db with jobs }, claims := s.claims ++ [newClaim s row j.completedAt now], seen } := by
  obtain ⟨hid, -, hdue⟩ := hclaimable
  have hbare : (newClaim s row j.completedAt now).bare = newClaim s row j.completedAt now := rfl
  have hlt {c : CallbackClaim} (hc : c ∈ s.claims.map CallbackClaim.bare) : c.number < s.claims.length := by
    obtain ⟨c₀, hc₀, rfl⟩ := List.mem_map.mp hc
    show c₀.number < s.claims.length
    exact number_lt hinv.numbers hc₀
  -- what is in hand of this dead letter, its lease has ended
  have hended : ∀ q, ∀ held ∈ heldOf (s.sweeps q), ∀ c ∈ s.claims.map CallbackClaim.bare, c.number = held.1 →
      c.jobId = row.id → c.deadAt = j.completedAt → c.askedAt + claimLease ≤ s.clock := by
    intro q held hmem c hc hnumber hjob hdeadAt
    have howed : c.OwedBy j := ⟨hdue.1, hdeadAt.symm, hdue.2.1⟩
    rcases h.lease q held hmem c hc hnumber j (hjob ▸ hj) howed with ⟨hafter, -⟩ | ⟨c', hc', -, hle⟩
    · exact (hdue.2.2 _ hafter).trans (h.asked p _ hpicked)
    · exact hle.trans (h.claimed c' hc')
  have hothers {q : ℕ} {held : ℕ × DeadLetterJob} (hq : q ≠ p)
      (hmem : held ∈ heldOf ((s.set p (some { sweep with
        turn := .claimed s.claims.length (claimedCallback row) })).sweeps q)) : held ∈ heldOf (s.sweeps q) := by
    rwa [Sweeping.sweeps_set_of_ne s hq] at hmem
  have hself {held : ℕ × DeadLetterJob} (hmem : held ∈ heldOf ((s.set p (some { sweep with
      turn := .claimed s.claims.length (claimedCallback row) })).sweeps p)) : held.1 = s.claims.length := by
    rw [Sweeping.sweeps_set_self] at hmem
    obtain rfl := Option.some.inj hmem
    rfl
  refine ⟨fun q held hmem c hc hnumber j' hj' howed => ?_, fun c hc => ?_, fun q picked hmem => ?_,
    fun q q' held hmem held' hmem' c hc c' hc' => ?_⟩
  · dsimp only at hmem hc hj' ⊢
    rw [List.map_append, List.map_singleton, hbare] at hc ⊢
    rw [hget] at hj'
    obtain ⟨j₀, hj₀, rfl⟩ := Option.map_eq_some_iff.mp hj'
    by_cases hq : q = p
    · -- the new claim
      subst hq
      have hnumber := hnumber.trans (hself hmem)
      rcases List.mem_append.mp hc with hc | hc
      · exact absurd hnumber (hlt hc).ne
      obtain rfl := List.mem_singleton.mp hc
      obtain rfl := Option.some.inj (hj₀.symm.trans hj)
      left
      rw [if_pos hid]
      refine ⟨?_, fun c' hc' hfollows => ?_⟩
      · have hafter : (r.claimRow j₀).deadLetterNotifyAfter = some (r.now + timedelta r.leaseSeconds) := rfl
        rw [hafter, hlease, hnow]
        rfl
      · rcases List.mem_append.mp hc' with hc' | hc'
        · exact absurd hfollows.number (not_lt.mpr (hlt hc').le)
        · rw [List.mem_singleton.mp hc'] at hfollows
          exact absurd hfollows.number (lt_irrefl _)
    · have hinHand := hothers hq hmem
      rcases List.mem_append.mp hc with hold | hnew
      · by_cases hrow : j₀.id = row.id
        · -- the dead letter is claimed again
          rw [if_pos hrow] at howed
          obtain rfl := Table.eq_of_key_eq (Table.mem_of_get hj₀) (Table.mem_of_get hj) (hrow.trans hid.symm)
          have hjob : c.jobId = row.id := (Table.key_of_get hj₀).symm.trans hid
          refine .inr ⟨_, List.mem_append_right _ (List.mem_singleton_self _),
            ⟨hjob.symm, howed.deadAt, hlt hold⟩, ?_⟩
          exact hended q held hinHand c hold hnumber hjob howed.deadAt.symm
        · rw [if_neg hrow] at howed ⊢
          rcases h.lease q held hinHand c hold hnumber j₀ hj₀ howed with ⟨hafter, hnewest⟩ | ⟨c', hc', hlater⟩
          · refine .inl ⟨hafter, fun c' hc' hfollows => ?_⟩
            rcases List.mem_append.mp hc' with hc' | hc'
            · exact hnewest c' hc' hfollows
            · rw [List.mem_singleton.mp hc'] at hfollows
              exact hrow ((Table.key_of_get hj₀).trans hfollows.jobId.symm)
          · exact .inr ⟨c', List.mem_append_left _ hc', hlater⟩
      · -- the number of the new claim is nobody else's
        rw [List.mem_singleton.mp hnew] at hnumber
        exact absurd hnumber (hinv.held_lt hinHand).ne'
  · dsimp only at hc ⊢
    rw [List.map_append, List.map_singleton, hbare] at hc
    rcases List.mem_append.mp hc with hc | hc
    · exact h.claimed c hc
    · rw [List.mem_singleton.mp hc]
      exact le_rfl
  · dsimp only at hmem ⊢
    by_cases hq : q = p
    · subst hq
      rw [Sweeping.sweeps_set_self] at hmem
      cases hmem
    · rw [Sweeping.sweeps_set_of_ne s hq] at hmem
      exact h.asked q picked hmem
  · dsimp only at hmem hmem' hc hc'
    rw [List.map_append, List.map_singleton, hbare] at hc hc'
    intro hnumber hnumber' hfollows
    rcases List.mem_append.mp hc with hc | hc
    · have hq : q ≠ p := by
        rintro rfl
        exact absurd (hnumber.trans (hself hmem)) (hlt hc).ne
      have hmem := hothers hq hmem
      rcases List.mem_append.mp hc' with hc' | hc'
      · have hq' : q' ≠ p := by
          rintro rfl
          exact absurd (hnumber'.trans (hself hmem')) (hlt hc').ne
        exact h.apart q q' held hmem held' (hothers hq' hmem') c hc c' hc' hnumber hnumber' hfollows
      · rw [List.mem_singleton.mp hc'] at hfollows ⊢
        exact hended q held hmem c hc hnumber hfollows.jobId.symm hfollows.deadAt.symm
    · -- nothing follows the new claim
      rw [List.mem_singleton.mp hc] at hfollows
      rcases List.mem_append.mp hc' with hc' | hc'
      · exact absurd hfollows.number (not_lt.mpr (hlt hc').le)
      · rw [List.mem_singleton.mp hc'] at hfollows
        exact absurd hfollows.number (lt_irrefl _)

/-- **An outcome is written**: every other claim in hand of this dead letter is followed by the one that is
settled. -/
theorem owed_of_write (hinv : DeliveryInv s) (hseen : SeenInv s) (hsweep : sweep ∈ s.sweeps p)
    (hheld : held ∈ sweep.turn.held)
    {write : RowWrite} (hwrite : ∀ j, (write.set j).completedAt = j.completedAt) {q : ℕ} (hq : q ≠ p)
    {held' : ℕ × DeadLetterJob} (hheld' : held' ∈ heldOf (s.sweeps q)) {c : CallbackClaim}
    (hc : c ∈ s.claims.map CallbackClaim.bare) (hnumber : c.number = held'.1) {j' : ProcessingJob}
    (hj' : j' ∈ (updateDeadLetter s.db held.2 write).2.jobs.get c.jobId) (howed : c.OwedBy j') :
    ∃ j ∈ s.db.jobs.get c.jobId, c.OwedBy j ∧ (j'.deadLetterNotifyAfter = j.deadLetterNotifyAfter
      ∨ ∃ c' ∈ s.claims.map CallbackClaim.bare, c'.Follows c) := by
  rw [get_updateDeadLetter] at hj'
  obtain ⟨j, hj, rfl⟩ := Option.map_eq_some_iff.mp hj'
  refine ⟨j, hj, ?_⟩
  split at howed
  · rename_i hlive
    have hget : s.db.jobs.get held.2.id = some j := hlive.1 ▸ Table.get_key (Table.mem_of_get hj)
    obtain ⟨newest, hmem, his, hown, -, hlast⟩ := hinv.newest hseen hsweep hheld hget hlive
    have hdeadAt : j.completedAt = c.deadAt := (hwrite j).symm.trans howed.deadAt
    obtain ⟨c₀, hc₀, rfl⟩ := List.mem_map.mp hc
    obtain ⟨sweep', hsweep', hinHand⟩ := mem_heldOf.mp hheld'
    obtain ⟨c₁, hc₁, his', -⟩ := hinv.held q sweep' hsweep' held' hinHand
    obtain rfl := eq_of_number hinv.numbers hc₁ hc₀ (his'.number.trans hnumber.symm)
    -- a live claim, and so no later one than the newest
    have hle : c₁.number ≤ newest.number := by
      refine number_le_newest hinv.numbers hlast (mem_live.mpr ⟨hc₁, ?_, hdeadAt.symm, his'.released⟩)
      exact (Table.key_of_get hj).symm
    have hne : c₁.number ≠ newest.number := by
      rw [his'.number, his.number]
      exact hinv.apart q p hq held' hheld' held (mem_heldOf.mpr ⟨sweep, hsweep, hheld⟩)
    refine ⟨⟨hlive.2.1, hdeadAt, hlive.2.2.1⟩,
      .inr ⟨newest.bare, List.mem_map_of_mem hmem, ?_, ?_, lt_of_le_of_ne hle hne⟩⟩
    · exact his.jobId.trans (hlive.1.symm.trans (Table.key_of_get hj))
    · exact hown.trans hdeadAt
  · rename_i hnot
    rw [if_neg hnot]
    exact ⟨howed, .inl rfl⟩

/-- A sweep goes on, with the claim it had or without one, and no row is written. -/
theorem LeaseInv.set (h : LeaseInv s) {t : Option Sweep} {seen : List Letter} {clock : Instant}
    (hclock : s.clock ≤ clock)
    (hpicked : ∀ picked ∈ pickedOf t, picked.1 ≤ clock) (ht : ∀ held ∈ heldOf t, held ∈ heldOf (s.sweeps p))
    {claims : List CallbackClaim} (hclaims : claims.map CallbackClaim.bare = s.claims.map CallbackClaim.bare) :
    LeaseInv { s.set p t with claims, seen, clock } := by
  refine h.keep (fun q held hmem => ?_) hclaims hclock (fun q picked hmem => ?_)
    fun q held hmem c hc hnumber j' hj' howed => ⟨j', hj', howed, .inl rfl⟩
  · by_cases hq : q = p
    · subst hq
      rw [Sweeping.sweeps_set_self] at hmem
      exact ht held hmem
    · rwa [Sweeping.sweeps_set_of_ne s hq] at hmem
  · dsimp only at hmem ⊢
    by_cases hq : q = p
    · subst hq
      rw [Sweeping.sweeps_set_self] at hmem
      exact hpicked picked hmem
    · rw [Sweeping.sweeps_set_of_ne s hq] at hmem
      exact (h.asked q picked hmem).trans hclock

/-- A sweep has written the outcome of its claim. -/
theorem LeaseInv.written (h : LeaseInv s) (hinv : DeliveryInv s) (hseen : SeenInv s)
    (hsweep : sweep ∈ s.sweeps p)
    (hheld : held ∈ sweep.turn.held) {write : RowWrite} (hwrite : ∀ j, (write.set j).completedAt = j.completedAt)
    {t : Option Sweep} (ht : heldOf t = none) (hpicked : pickedOf t = none) {claims : List CallbackClaim}
    (hclaims : claims.map CallbackClaim.bare = s.claims.map CallbackClaim.bare) :
    LeaseInv { s.set p t with db := (updateDeadLetter s.db held.2 write).2, claims } := by
  have hothers (q : ℕ) (held' : ℕ × DeadLetterJob) (hmem : held' ∈ heldOf ((s.set p t).sweeps q)) :
      q ≠ p ∧ held' ∈ heldOf (s.sweeps q) := by
    by_cases hq : q = p
    · subst hq
      rw [Sweeping.sweeps_set_self, ht] at hmem
      cases hmem
    · rw [Sweeping.sweeps_set_of_ne s hq] at hmem
      exact ⟨hq, hmem⟩
  refine h.keep (fun q held' hmem => (hothers q held' hmem).2) hclaims le_rfl (fun q picked hmem => ?_)
    fun q held' hmem c hc hnumber j' hj' howed => ?_
  · dsimp only at hmem
    by_cases hq : q = p
    · subst hq
      rw [Sweeping.sweeps_set_self, hpicked] at hmem
      cases hmem
    · rw [Sweeping.sweeps_set_of_ne s hq] at hmem
      exact h.asked q picked hmem
  · obtain ⟨hq, hinHand⟩ := hothers q held' hmem
    exact owed_of_write hinv hseen hsweep hheld hwrite hq hinHand hc hnumber hj' howed

/-- Any other call writes no row that is owed to a claim in hand. -/
theorem LeaseInv.other (h : LeaseInv s) (hseen : SeenInv s) {c : Call} (hok : s.DatedApart (.other c)) :
    LeaseInv { s with db := c.run s.db } := by
  obtain ⟨hplain, hdated⟩ := hok
  refine h.keep (fun q held hmem => hmem) rfl le_rfl h.asked
    fun q held hmem claim hclaim hnumber j' hj' howed => ?_
  rcases run_get c hj' with ⟨-, hnew⟩ | ⟨j, hj, hstep⟩
  · cases (status_newRow hnew).symm.trans howed.dead
  refine ⟨j, hj, ?_⟩
  by_cases hs : j.status = .deadLetter
  · rcases (hstep.plain hplain).1 hs with rfl | ⟨hs', -⟩
    · exact ⟨howed, .inl rfl⟩
    · exact absurd howed.dead hs'
  · -- a new dead letter is not the one that was claimed
    have hget : j' ∈ (c.run s.db).jobs.get j.id := Table.key_of_get hj ▸ hj'
    refine absurd ?_ (hdated j (Table.mem_of_get hj) j' hget hs howed.dead)
    have hletter : j'.letter = (claim.jobId, claim.deadAt) := by
      rw [ProcessingJob.letter, howed.deadAt, Table.key_of_get hj']
    rw [hletter]
    exact hseen.claims claim hclaim

/-- **Every step keeps it**, while the clock does not go back. -/
theorem leaseInv_step {a : SweepStep} (h : LeaseInv s) (hinv : DeliveryInv s) (hseen : SeenInv s)
    (hdated : s.DatedApart a) (hclock : s.ClockForward a) (hs : s.step a = some s') : LeaseInv s' := by
  cases Sweeping.moves_of_step hs with
  | nothing => exact h
  | letGo hheld hpicked =>
    exact h.set le_rfl (by rw [hpicked]; rintro picked ⟨⟩) (by rw [hheld]; rintro held ⟨⟩) rfl
  | exhausted => exact h.set hclock (by rintro picked ⟨⟩) (by rintro held ⟨⟩) rfl
  | selected => exact h.set hclock (by rintro picked ⟨⟩; exact le_rfl) (by rintro held ⟨⟩) rfl
  | @missed p jobs hget =>
    have hset : LeaseInv (s.set p none) := h.set le_rfl (by rintro picked ⟨⟩) (by rintro held ⟨⟩) rfl
    refine hset.keep (fun q held hmem => hmem) rfl le_rfl hset.asked
      fun q held hmem c hc hnumber j' hj' howed => ⟨j', ?_, howed, .inl rfl⟩
    exact (hget _).symm.trans hj'
  | claimed hsweep hturn hj hclaimable hget =>
    exact h.claim hinv (mem_pickedOf.mpr ⟨_, hsweep, by rw [hturn]; rfl⟩) hj hclaimable rfl rfl hget
  | @started p number _ sweep job hsweep hturn =>
    have hheld : (number, job) ∈ heldOf (s.sweeps p) := mem_heldOf.mpr ⟨sweep, hsweep, by rw [hturn]; rfl⟩
    refine h.set le_rfl (by rintro picked ⟨⟩) ?_ (bare_modifyClaim fun _ => rfl)
    rintro held ⟨⟩
    exact hheld
  | @goesOn a p sweep next held hsweep hheld hnext hpicked =>
    have hinHand : held ∈ heldOf (s.sweeps p) := mem_heldOf.mpr ⟨sweep, hsweep, hheld⟩
    refine h.set le_rfl (fun picked hmem => ?_) (fun held' hmem => ?_) rfl
    · cases hpicked.symm.trans hmem
    · obtain rfl := Option.some.inj (hnext.symm.trans hmem)
      exact hinHand
  | @undone p number _ sweep job hsweep hturn =>
    have hheld : (number, job) ∈ sweep.turn.held := by
      rw [hturn]
      rfl
    exact h.written hinv hseen hsweep hheld (fun _ => rfl) rfl rfl (bare_modifyClaim fun _ => rfl)
  | @notUndone p number _ sweep job hsweep hturn =>
    have hheld : (number, job) ∈ sweep.turn.held := by
      rw [hturn]
      rfl
    exact h.written hinv hseen hsweep hheld (fun _ => rfl) rfl rfl rfl
  | written hsweep hheld hwrite =>
    exact h.written hinv hseen hsweep hheld (fun j => (hwrite j).2.1) rfl rfl rfl
  | other => exact h.other hseen hdated

/-- A fresh installation has no claim. -/
theorem leaseInv_init (clock : Instant) : LeaseInv (Sweeping.init clock) := by
  refine ⟨?_, ?_, ?_, ?_⟩
  · rintro p held ⟨⟩
  · rintro c ⟨⟩
  · rintro p picked ⟨⟩
  · rintro p q held ⟨⟩

end Leases

/-- **Callbacks apart.** In such a run, when besides the clock does not go back: if two sweeps have claims of
one dead letter in hand, whose callbacks may both be running, then at the compare-and-set of the later one the
clock had gone on for at least five minutes since the other selected. -/
theorem callbacks_apart {clock : Instant} {s : Sweeping}
    (h : Reaches Sweeping.step (fun s a => s.DatedApart a ∧ s.ClockForward a) (Sweeping.init clock) s) {p q : ℕ}
    {sweep sweep' : Sweep} (hsweep : sweep ∈ s.sweeps p) (hsweep' : sweep' ∈ s.sweeps q)
    {held held' : ℕ × DeadLetterJob}
    (hheld : held ∈ sweep.turn.held) (hheld' : held' ∈ sweep'.turn.held) {c c' : CallbackClaim}
    (hc : c ∈ s.claims) (hc' : c' ∈ s.claims) (hnumber : c.number = held.1) (hnumber' : c'.number = held'.1)
    (hjob : c'.jobId = c.jobId)
    (hdeadAt : c'.deadAt = c.deadAt) (hlater : c.number < c'.number) : c.askedAt + 300000000 ≤ c'.claimedAt := by
  have hinv : (DeliveryInv s ∧ SeenInv s) ∧ LeaseInv s :=
    h.invariant (fun s => (DeliveryInv s ∧ SeenInv s) ∧ LeaseInv s)
      ⟨⟨deliveryInv_init clock, seenInv_init clock⟩, leaseInv_init clock⟩ fun _ hinv hok hs =>
        ⟨⟨deliveryInv_step hinv.1.1 hinv.1.2 hok.1 hs, seenInv_step hinv.1.2 hinv.1.1 hok.1 hs⟩,
          leaseInv_step hinv.2 hinv.1.1 hinv.1.2 hok.1 hok.2 hs⟩
  have hlease : claimLease = 300000000 := by
    have hseconds : claimLeaseSeconds = ((300 : ℤ) : ℚ) := by norm_num [claimLeaseSeconds]
    rw [claimLease, hseconds, timedelta_intCast]
    rfl
  have hle := hinv.2.apart p q held (mem_heldOf.mpr ⟨sweep, hsweep, hheld⟩) held'
    (mem_heldOf.mpr ⟨sweep', hsweep', hheld'⟩) c.bare (List.mem_map_of_mem hc) c'.bare (List.mem_map_of_mem hc')
    hnumber hnumber' ⟨hjob, hdeadAt, hlater⟩
  rw [hlease] at hle
  exact hle

/-- In the example both claims are of the dead letter of instant 5, and the second is made five minutes after
the first sweep selected. -/
theorem callbacks_apart_overtaken : ∃ c ∈ Sweeping.overtaken.claims, ∃ c' ∈ Sweeping.overtaken.claims,
    c.number = 0 ∧ c'.number = 1 ∧ c.askedAt + 300000000 ≤ c'.claimedAt := by
  obtain ⟨c, c', hclaims, hc, hc', hletter⟩ : ∃ c c', Sweeping.overtaken.claims = [c, c'] ∧ c.number = 0
    ∧ c'.number = 1
      ∧ c'.jobId = c.jobId ∧ c'.deadAt = c.deadAt := by
    have hclaims : Sweeping.overtaken.claims.map (fun c => (c.number, c.jobId, c.deadAt))
        = [(0, "job", some 5), (1, "job", some 5)] := by decide +kernel
    obtain ⟨c, rest, hlist, hc, hrest⟩ := List.map_eq_cons_iff.mp hclaims
    obtain ⟨c', rest', rfl, hc', hnil⟩ := List.map_eq_cons_iff.mp hrest
    obtain rfl := List.map_eq_nil_iff.mp hnil
    simp only [Prod.mk.injEq] at hc hc'
    exact ⟨c, c', hlist, hc.1, hc'.1, hc'.2.1.trans hc.2.1.symm, hc'.2.2.trans hc.2.2.symm⟩
  have hmem : c ∈ Sweeping.overtaken.claims ∧ c' ∈ Sweeping.overtaken.claims := by simp [hclaims]
  obtain ⟨held, hheld, hfirst⟩ := Option.map_eq_some_iff.mp held_overtaken.1
  obtain ⟨held', hheld', hsecond⟩ := Option.map_eq_some_iff.mp held_overtaken.2
  obtain ⟨sweep, hsweep, hturn⟩ := mem_heldOf.mp hheld
  obtain ⟨sweep', hsweep', hturn'⟩ := mem_heldOf.mp hheld'
  refine ⟨c, hmem.1, c', hmem.2, hc, hc', ?_⟩
  exact callbacks_apart reaches_overtaken hsweep hsweep' hturn hturn' hmem.1 hmem.2
    (hc.trans (Prod.mk.inj hfirst).1.symm) (hc'.trans (Prod.mk.inj hsecond).1.symm) hletter.1 hletter.2
    (by omega)

end Jasil.Jobs
