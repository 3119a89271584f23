import Jasil.Jobs.CallbackRaces
import Jasil.Jobs.RowInvariant
import Jasil.Jobs.Sweeps
import Jasil.Leases.Tickets

/-! # Deliveries of one dead letter
The delivery count of a dead letter is a counter that a release counts down and a replay sets back, so that
counts recur. Together with the instant of the dead letter it names the newest claim that was not undone.

* **`DeliveryInv`**: the claims of a dead letter are its tickets, and each sweep holds one of them.
* **`SeenInv`**: a sweep was handed the dead letter that its claim is of, or one that is gone for good.
* **`Sweeping.Moves`**: what a step does to the sweeps, and to the tables for them.
* **`dead_letter_deliveries`**: what the count says, which writes succeed, and how often a callback runs. -/

namespace Jasil.Jobs

/-! ## Claims of one dead letter -/

/-- The claims of a dead letter that were not undone, oldest first. -/
def live (claims : List CallbackClaim) (jobId : JobId) (deadAt : Option Instant) : List CallbackClaim :=
  claims.filter fun c => c.jobId = jobId ∧ c.deadAt = deadAt ∧ c.released = false

/-- What a claim is, whatever became of it. -/
def CallbackClaim.bare (c : CallbackClaim) : CallbackClaim := { c with ran := false, released := false }

/-- The claim is the one in hand. -/
structure CallbackClaim.Is (c : CallbackClaim) (held : ℕ × DeadLetterJob) : Prop where
  number : c.number = held.1
  jobId : c.jobId = held.2.id
  ticket : c.ticket = held.2.deliveryAttempt
  released : c.released = false

section Claims

variable {claims : List CallbackClaim} {c c' : CallbackClaim} {jobId : JobId} {deadAt : Option Instant}
  {number : ℕ} {f : CallbackClaim → CallbackClaim}

/-- What is live of a dead letter are its claims that were not undone. -/
theorem mem_live : c ∈ live claims jobId deadAt
    ↔ c ∈ claims ∧ c.jobId = jobId ∧ c.deadAt = deadAt ∧ c.released = false := by
  simp [live]

/-- A claim more is live when it is of that dead letter and not undone. -/
theorem live_concat : live (claims ++ [c]) jobId deadAt
    = live claims jobId deadAt ++ if c.jobId = jobId ∧ c.deadAt = deadAt
      ∧ c.released = false then [c] else [] := by
  rw [live, List.filter_append, live]
  by_cases h : c.jobId = jobId ∧ c.deadAt = deadAt ∧ c.released = false <;> simp [h]

/-- A change of what became of a claim. -/
theorem bare_modifyClaim (hf : ∀ c, (f c).bare = c.bare) :
    (modifyClaim claims number f).map CallbackClaim.bare = claims.map CallbackClaim.bare := by
  rw [modifyClaim, List.map_map]
  refine List.map_congr_left fun c _ => ?_
  rw [Function.comp_apply]
  split
  · exact hf c
  · rfl

/-- A change of one claim leaves the numbers. -/
theorem map_number_modifyClaim (hf : ∀ c, (f c).number = c.number) :
    (modifyClaim claims number f).map CallbackClaim.number = claims.map CallbackClaim.number := by
  rw [modifyClaim, List.map_map]
  refine List.map_congr_left fun c _ => ?_
  rw [Function.comp_apply]
  split
  · exact hf c
  · rfl

/-- A change that leaves a claim what it is. -/
theorem live_modifyClaim
    (hf : ∀ c, (f c).jobId = c.jobId ∧ (f c).deadAt = c.deadAt ∧ (f c).released = c.released) :
    live (modifyClaim claims number f) jobId deadAt
      = (live claims jobId deadAt).map fun c => if c.number = number then f c else c := by
  rw [live, modifyClaim, List.filter_map, live]
  congr 1
  refine List.filter_congr fun c _ => ?_
  rw [Function.comp_apply]
  split
  · rw [(hf c).1, (hf c).2.1, (hf c).2.2]
  · rfl

/-- An undone claim is not among the others any more. -/
theorem live_released : live (modifyClaim claims number CallbackClaim.undo) jobId deadAt
    = (live claims jobId deadAt).filter fun c => c.number ≠ number := by
  induction claims with
  | nil => rfl
  | cons c claims ih =>
    rw [live, live, modifyClaim] at ih
    rw [live, live, modifyClaim, List.map_cons]
    by_cases hc : c.number = number
    · by_cases hlive : c.jobId = jobId ∧ c.deadAt = deadAt ∧ c.released = false <;> simp_all [CallbackClaim.undo]
    · by_cases hlive : c.jobId = jobId ∧ c.deadAt = deadAt ∧ c.released = false <;> simp_all [CallbackClaim.undo]

/-- After a change of one claim the others are as they were. -/
theorem mem_modifyClaim (h : c ∈ modifyClaim claims number f) :
    ∃ c₀ ∈ claims, c = if c₀.number = number then f c₀ else c₀ := by
  obtain ⟨c₀, hc₀, rfl⟩ := List.mem_map.mp h
  exact ⟨c₀, hc₀, rfl⟩

/-- Every claim is still there after a change of one. -/
theorem modifyClaim_mem (f : CallbackClaim → CallbackClaim) (number : ℕ) (h : c ∈ claims) :
    (if c.number = number then f c else c) ∈ modifyClaim claims number f :=
  List.mem_map_of_mem h

/-- Claims have their own numbers. -/
theorem eq_of_number (hnumbers : claims.map CallbackClaim.number = List.range claims.length) (hc : c ∈ claims)
    (hc' : c' ∈ claims) (heq : c.number = c'.number) : c = c' :=
  List.inj_on_of_nodup_map (hnumbers ▸ List.nodup_range) hc hc' heq

/-- A number is below that of the claims. -/
theorem number_lt (hnumbers : claims.map CallbackClaim.number = List.range claims.length) (hc : c ∈ claims) :
    c.number < claims.length := by
  have hmem : c.number ∈ claims.map CallbackClaim.number := List.mem_map_of_mem hc
  rwa [hnumbers, List.mem_range] at hmem

/-- The newest claim has the highest number. -/
theorem number_le_newest (hnumbers : claims.map CallbackClaim.number = List.range claims.length)
    (hlast : (live claims jobId deadAt).getLast? = some c') (hc : c ∈ live claims jobId deadAt) :
    c.number ≤ c'.number := by
  have hsorted : (live claims jobId deadAt).Pairwise fun c c' => c.number < c'.number := by
    refine List.Pairwise.sublist List.filter_sublist (List.pairwise_map.mp ?_)
    rw [hnumbers]
    exact List.pairwise_lt_range
  obtain ⟨front, hfront⟩ := List.getLast?_eq_some_iff.mp hlast
  rw [hfront] at hsorted hc
  rcases List.mem_append.mp hc with hc | hc
  · exact ((List.pairwise_append.mp hsorted).2.2 c hc c' (List.mem_singleton_self _)).le
  · rw [List.mem_singleton.mp hc]

end Claims

/-! ## The invariant -/

/-- The delivery count of a dead letter is the number of its claims that were not undone. -/
structure RowInv (claims : List CallbackClaim) (j : ProcessingJob) : Prop where
  count : j.status = .deadLetter → j.deadLetterAttempts = (live claims j.id j.completedAt).length
  noCallback : j.status ≠ .deadLetter →
    j.deadLetterNotifiedAt = none ∧ j.deadLetterNotifyAfter = none ∧ j.deadLetterAttempts = 0

/-- The claim that a sweep holds. -/
def heldOf (sweep : Option Sweep) : Option (ℕ × DeadLetterJob) := sweep.bind fun sweep => sweep.turn.held

/-- The row that a sweep has selected and not yet claimed. -/
def pickedOf (sweep : Option Sweep) : Option (Instant × ProcessingJob) :=
    sweep.bind fun sweep => sweep.turn.picked

/-- The dead letter that a sweep was handed is not there any more. -/
def Gone (db : Db) (job : DeadLetterJob) : Prop :=
  ∀ j ∈ db.jobs.get job.id, j.status = .deadLetter → j.completedAt ≠ job.deadAt

/-- **The claims of a dead letter are its tickets**, and each sweep holds one of them. -/
structure DeliveryInv (s : Sweeping) : Prop where
  numbers : s.claims.map CallbackClaim.number = List.range s.claims.length
  numbered : ∀ jobId deadAt, Numbered CallbackClaim.ticket (live s.claims jobId deadAt)
  few : ∀ jobId deadAt, ((live s.claims jobId deadAt).length : ℤ) ≤ maxDeliveries
  ran : ∀ c ∈ s.claims, c.ran = true → c.released = false
  rows : ∀ id, ∀ j ∈ s.db.jobs.get id, RowInv s.claims j
  held : ∀ p, ∀ sweep ∈ s.sweeps p, ∀ held ∈ sweep.turn.held, ∃ c ∈ s.claims, c.Is held
    ∧ c.ran = sweep.turn.started
  apart : ∀ p q, p ≠ q → ∀ held ∈ heldOf (s.sweeps p), ∀ held' ∈ heldOf (s.sweeps q), held.1 ≠ held'.1

/-- **A sweep was handed the dead letter that its claim is of**, or one that the job was replayed from since
it was selected, and that does not come back. -/
structure SeenInv (s : Sweeping) : Prop where
  claims : ∀ c ∈ s.claims.map CallbackClaim.bare, (c.jobId, c.deadAt) ∈ s.seen
  picked : ∀ p, ∀ picked ∈ pickedOf (s.sweeps p),
    picked.2.letter ∈ s.seen ∧ picked.2.deadLetterAttempts < maxDeliveries
  held : ∀ p, ∀ held ∈ heldOf (s.sweeps p), held.2.letter ∈ s.seen
  own : ∀ p, ∀ held ∈ heldOf (s.sweeps p), ∀ c ∈ s.claims.map CallbackClaim.bare, c.number = held.1 →
    c.deadAt = held.2.deadAt ∨ Gone s.db held.2

section Steps

variable {s s' : Sweeping} {p : ℕ} {sweep : Sweep} {held : ℕ × DeadLetterJob} {j j' : ProcessingJob} {c : Call}
  {job : DeadLetterJob}

/-- What a sweep holds is what its turn holds. -/
theorem mem_heldOf : held ∈ heldOf (s.sweeps p) ↔ ∃ sweep ∈ s.sweeps p, held ∈ sweep.turn.held := by
  simp [heldOf, Option.bind_eq_some_iff]

/-- What a sweep has selected is what its turn has. -/
theorem mem_pickedOf {picked : Instant × ProcessingJob} :
    picked ∈ pickedOf (s.sweeps p) ↔ ∃ sweep ∈ s.sweeps p, picked ∈ sweep.turn.picked := by
  simp [pickedOf, Option.bind_eq_some_iff]

/-- The claims in hand are among those on record. -/
theorem DeliveryInv.held_lt (h : DeliveryInv s) (hheld : held ∈ heldOf (s.sweeps p)) :
    held.1 < s.claims.length := by
  obtain ⟨sweep, hsweep, hheld⟩ := mem_heldOf.mp hheld
  obtain ⟨c, hc, his, -⟩ := h.held p sweep hsweep held hheld
  rw [← his.number]
  exact number_lt h.numbers hc

/-- **The write of an outcome finds the newest claim.** -/
theorem DeliveryInv.newest (h : DeliveryInv s) (hseen : SeenInv s) (hsweep : sweep ∈ s.sweeps p)
    (hheld : held ∈ sweep.turn.held) {id : JobId} (hj : s.db.jobs.get id = some j)
    (hlive : LiveDelivery held.2 j) :
    ∃ c ∈ s.claims, c.Is held ∧ c.deadAt = j.completedAt ∧ c.ran = sweep.turn.started
      ∧ (live s.claims j.id j.completedAt).getLast? = some c := by
  obtain ⟨c, hc, his, hran⟩ := h.held p sweep hsweep held hheld
  obtain ⟨hid, hdead, -, hticket, hdeadAt⟩ := hlive
  -- the dead letter that the sweep was handed is there, so it is the one that was claimed
  have hown : c.deadAt = j.completedAt := by
    rcases hseen.own p held (mem_heldOf.mpr ⟨sweep, hsweep, hheld⟩) c.bare (List.mem_map_of_mem hc) his.number
      with
      hown | hgone
    · exact Eq.trans hown hdeadAt.symm
    · exact absurd hdeadAt (hgone j (hid ▸ Table.get_key (Table.mem_of_get hj)) hdead)
  refine ⟨c, hc, his, hown, hran, (h.numbered _ _).newest ?_ ?_⟩
  · rw [mem_live, his.jobId, hid]
    exact ⟨hc, rfl, hown, his.released⟩
  · rw [his.ticket, ← hticket]
    exact (h.rows id j hj).count hdead

/-- A sweep goes on with the claim it has, or without it. -/
theorem DeliveryInv.set (h : DeliveryInv s) {t : Option Sweep}
    (ht : ∀ sweep ∈ t, ∀ held ∈ sweep.turn.held,
      ∃ sweep₀ ∈ s.sweeps p, held ∈ sweep₀.turn.held ∧ sweep.turn.started = sweep₀.turn.started) :
    DeliveryInv (s.set p t) := by
  have hsame : ∀ q, ∀ held ∈ heldOf ((s.set p t).sweeps q), held ∈ heldOf (s.sweeps q) := by
    intro q held hmem
    obtain ⟨sweep, hsweep, hheld⟩ := mem_heldOf.mp hmem
    by_cases hq : q = p
    · subst hq
      rw [Sweeping.sweeps_set_self] at hsweep
      obtain ⟨sweep₀, hsweep₀, hheld₀, -⟩ := ht sweep hsweep held hheld
      exact mem_heldOf.mpr ⟨sweep₀, hsweep₀, hheld₀⟩
    · rw [Sweeping.sweeps_set_of_ne s hq] at hsweep
      exact mem_heldOf.mpr ⟨sweep, hsweep, hheld⟩
  refine ⟨h.numbers, h.numbered, h.few, h.ran, h.rows, fun q sweep hsweep held hheld => ?_, ?_⟩
  · by_cases hq : q = p
    · subst hq
      rw [Sweeping.sweeps_set_self] at hsweep
      obtain ⟨sweep₀, hsweep₀, hheld₀, hstarted⟩ := ht sweep hsweep held hheld
      rw [hstarted]
      exact h.held q sweep₀ hsweep₀ held hheld₀
    · rw [Sweeping.sweeps_set_of_ne s hq] at hsweep
      exact h.held q sweep hsweep held hheld
  · intro q q' hne held hheld held' hheld'
    exact h.apart q q' hne held (hsame q held hheld) held' (hsame q' held' hheld')

/-- The rows change, and the counts stay right. -/
theorem DeliveryInv.write (h : DeliveryInv s) {db : Db} {seen : List Letter} {clock : Instant}
    (hrows : ∀ id, ∀ j ∈ db.jobs.get id, RowInv s.claims j) : DeliveryInv { s with db, seen, clock } :=
  ⟨h.numbers, h.numbered, h.few, h.ran, hrows, h.held, h.apart⟩

/-- **An outcome is written** without a change of the count. -/
theorem DeliveryInv.outcome (h : DeliveryInv s) (job : DeadLetterJob) (write : RowWrite)
    (hwrite : ∀ j, (write.set j).status = j.status ∧ (write.set j).completedAt = j.completedAt
      ∧ (write.set j).deadLetterAttempts = j.deadLetterAttempts) :
    DeliveryInv { s with db := (updateDeadLetter s.db job write).2 } := by
  refine h.write fun id j' hj' => ?_
  rw [get_updateDeadLetter] at hj'
  obtain ⟨j, hj, rfl⟩ := Option.map_eq_some_iff.mp hj'
  have hrow := h.rows id j hj
  split
  · rename_i hlive
    obtain ⟨hstatus, hcompleted, hcount⟩ := hwrite j
    refine ⟨fun _ => ?_, fun hnot => absurd (hstatus.trans hlive.2.1) hnot⟩
    rw [hcount, write.keepsId, hcompleted]
    exact hrow.count hlive.2.1
  · exact hrow

/-- **The callback is started**: the claim was not undone, and cannot be from now on. -/
theorem DeliveryInv.run (h : DeliveryInv s) {turn : Turn} (hsweep : sweep ∈ s.sweeps p)
    (hheld : held ∈ sweep.turn.held) (hturn : turn.held = some held) (hstarted : turn.started = true) :
    DeliveryInv { s.set p (some { sweep with turn }) with
      claims := modifyClaim s.claims held.1 CallbackClaim.start } := by
  have hlive (jobId : JobId) (deadAt : Option Instant) :
      live (modifyClaim s.claims held.1 CallbackClaim.start) jobId deadAt
        = (live s.claims jobId deadAt).map fun c => if c.number = held.1 then c.start else c :=
    live_modifyClaim fun _ => ⟨rfl, rfl, rfl⟩
  have hlength : (modifyClaim s.claims held.1 CallbackClaim.start).length = s.claims.length :=
    List.length_map ..
  refine ⟨?_, fun jobId deadAt => ?_, fun jobId deadAt => ?_, fun c hc hran => ?_, fun id j hj => ?_, ?_, ?_⟩
  · dsimp only
    rw [map_number_modifyClaim fun c => (rfl : c.start.number = c.number), hlength]
    exact h.numbers
  · dsimp only
    rw [hlive, numbered_map]
    have hticket : (CallbackClaim.ticket ∘ fun c => if c.number = held.1 then c.start else c)
        = CallbackClaim.ticket := by
      funext c
      rw [Function.comp_apply]
      split <;> rfl
    rw [hticket]
    exact h.numbered jobId deadAt
  · dsimp only
    rw [hlive, List.length_map]
    exact h.few jobId deadAt
  · obtain ⟨c₀, hc₀, rfl⟩ := mem_modifyClaim hc
    by_cases hnumber : c₀.number = held.1
    · -- it is the claim in hand
      obtain ⟨c, hc, his, -⟩ := h.held p sweep hsweep held hheld
      obtain rfl := eq_of_number h.numbers hc₀ hc (hnumber.trans his.number.symm)
      rw [if_pos hnumber]
      exact his.released
    · rw [if_neg hnumber] at hran ⊢
      exact h.ran c₀ hc₀ hran
  · obtain ⟨hcount, hnone⟩ := h.rows id j hj
    refine ⟨fun hdead => ?_, hnone⟩
    dsimp only
    rw [hlive, List.length_map]
    exact hcount hdead
  · intro q sweep' hsweep' held' hheld'
    by_cases hq : q = p
    · subst hq
      obtain rfl : { sweep with turn } = sweep' :=
        Option.some.inj ((Sweeping.sweeps_set_self s q _).symm.trans hsweep')
      obtain rfl : held = held' := Option.some.inj (hturn.symm.trans hheld')
      obtain ⟨c, hc, his, -⟩ := h.held q sweep hsweep held hheld
      have hmem := modifyClaim_mem CallbackClaim.start held.1 hc
      rw [if_pos his.number] at hmem
      exact ⟨_, hmem, ⟨his.number, his.jobId, his.ticket, his.released⟩, hstarted.symm⟩
    · have hsweep' : sweep' ∈ s.sweeps q := (Sweeping.sweeps_set_of_ne s hq _).symm.trans hsweep'
      obtain ⟨c, hc, his, hran⟩ := h.held q sweep' hsweep' held' hheld'
      -- another sweep holds another claim
      have hne : c.number ≠ held.1 := by
        rw [his.number]
        exact h.apart q p hq held' (mem_heldOf.mpr ⟨sweep', hsweep', hheld'⟩) held
          (mem_heldOf.mpr ⟨sweep, hsweep, hheld⟩)
      have hmem := modifyClaim_mem CallbackClaim.start held.1 hc
      rw [if_neg hne] at hmem
      exact ⟨c, hmem, his, hran⟩
  · have hsame (q : ℕ) : heldOf ((s.set p (some { sweep with turn })).sweeps q) = heldOf (s.sweeps q) := by
      by_cases hq : q = p
      · subst hq
        rw [Sweeping.sweeps_set_self, Option.mem_def.mp hsweep]
        exact hturn.trans (Option.mem_def.mp hheld).symm
      · rw [Sweeping.sweeps_set_of_ne s hq]
    intro q q' hne held₁ hheld₁ held₂ hheld₂
    dsimp only at hheld₁ hheld₂
    rw [hsame] at hheld₁ hheld₂
    exact h.apart q q' hne held₁ hheld₁ held₂ hheld₂

/-- **A compare-and-set that finds its row**: what is handed on is the row as it was selected. -/
theorem claim_of_row {db : Db} {r : CallbackRequest} {row : ProcessingJob} {rest : List DeadLetterJob}
    {jobs : Table ProcessingJob.id} (h : claimCallbackRow r row ([], db.jobs) = (job :: rest, jobs)) :
    job = claimedCallback row ∧ ∃ j, db.jobs.get row.id = some j ∧ CallbackClaimable row r.now j
      ∧ ∀ id, jobs.get id = (db.jobs.get id).map fun j => if j.id = row.id then r.claimRow j else j := by
  have hget (id : JobId) := get_claimCallbackRow r row [] db.jobs id
  rw [h] at hget
  rw [claimCallbackRow, Prod.mk.injEq] at h
  by_cases hcount : db.jobs.rowcount (CallbackClaimable row r.now) = 1
  · rw [if_pos hcount, List.nil_append] at h
    obtain ⟨j, hj, hclaimable⟩ := (Table.rowcount_eq_one_iff fun _ hc => hc.1).mp hcount
    refine ⟨(List.cons.inj h.1).1.symm, j, hj, hclaimable, fun id => (hget id).trans ?_⟩
    cases hid : db.jobs.get id with
    | none => rfl
    | some j' =>
      rw [Option.map_some, Option.map_some]
      by_cases heq : j'.id = row.id
      · obtain rfl := Table.eq_of_key_eq (Table.mem_of_get hid) (Table.mem_of_get hj)
          (heq.trans hclaimable.1.symm)
        rw [if_pos hclaimable, if_pos heq, CallbackRequest.claimRow, hclaimable.2.1]
      · rw [if_neg fun hclaims => heq hclaims.1, if_neg heq]
  · rw [if_neg hcount] at h
    cases h.1

/-- A compare-and-set that does not find its row changes nothing. -/
theorem get_of_no_claim {db : Db} {r : CallbackRequest} {row : ProcessingJob} {jobs : Table ProcessingJob.id}
    (h : claimCallbackRow r row ([], db.jobs) = ([], jobs)) (id : JobId) : jobs.get id = db.jobs.get id := by
  have hget := get_claimCallbackRow r row [] db.jobs id
  rw [h] at hget
  rw [claimCallbackRow, Prod.mk.injEq] at h
  have hcount : db.jobs.rowcount (CallbackClaimable row r.now) ≠ 1 := by
    intro hcount
    rw [if_pos hcount] at h
    cases h.1
  refine hget.trans ?_
  cases hj : db.jobs.get id with
  | none => rfl
  | some j =>
    rw [Option.map_some, if_neg]
    intro hclaimable
    have hrow : db.jobs.get row.id = some j := hclaimable.1 ▸ Table.get_key (Table.mem_of_get hj)
    exact hcount ((Table.rowcount_eq_one_iff fun _ hc => hc.1).mpr ⟨j, hrow, hclaimable⟩)

/-- The record of a claim. -/
def newClaim (s : Sweeping) (row : ProcessingJob) (deadAt : Option Instant) (now : Instant) : CallbackClaim :=
  ⟨s.claims.length, row.id, deadAt, row.deadLetterAttempts + 1, now, s.clock, false, false⟩

/-- A new claim is live. -/
theorem live_newClaim (row : ProcessingJob) (now : Instant) (jobId : JobId) (counted deadAt : Option Instant) :
    live (s.claims ++ [newClaim s row counted now]) jobId deadAt = live s.claims jobId deadAt
      ++ if row.id = jobId ∧ counted = deadAt then [newClaim s row counted now] else [] := by
  rw [live_concat]
  simp [newClaim]

/-- **A dead letter is claimed**: the next ticket is taken. -/
theorem DeliveryInv.claim (h : DeliveryInv s) {jobs : Table ProcessingJob.id} {seen : List Letter}
    {now : Instant} {row : ProcessingJob} {r : CallbackRequest} (hidle : heldOf (s.sweeps p) = none)
    (hj : s.db.jobs.get row.id = some j) (hclaimable : CallbackClaimable row now j)
    (hfew : row.deadLetterAttempts < maxDeliveries)
    (hget : ∀ id, jobs.get id = (s.db.jobs.get id).map fun j => if j.id = row.id then r.claimRow j else j) :
    DeliveryInv { s.set p (some { sweep with turn := .claimed s.claims.length (claimedCallback row) }) with
      db := { s.db with jobs }, claims := s.claims ++ [newClaim s row j.completedAt now], seen } := by
  obtain ⟨hid, hattempts, hdue⟩ := hclaimable
  -- the row's counter is the number of claims of this dead letter, which is the new claim's number
  have hcount : row.deadLetterAttempts = (live s.claims row.id j.completedAt).length := by
    rw [← hattempts, ← hid]
    exact (h.rows _ j hj).count hdue.1
  refine ⟨?_, fun jobId deadAt => ?_, fun jobId deadAt => ?_, ?_, fun id j' hj' => ?_, ?_, ?_⟩
  · simp [h.numbers, newClaim, List.range_succ]
  · dsimp only
    rw [live_newClaim]
    split
    · rename_i hletter
      obtain ⟨rfl, rfl⟩ := hletter
      refine numbered_concat.mpr ⟨h.numbered _ _, ?_⟩
      rw [newClaim, hcount]
    · rw [List.append_nil]
      exact h.numbered jobId deadAt
  · dsimp only
    rw [live_newClaim]
    split
    · rename_i hletter
      obtain ⟨rfl, rfl⟩ := hletter
      rw [hcount] at hfew
      rw [List.length_append, List.length_singleton, Nat.cast_add, Nat.cast_one]
      exact hfew
    · rw [List.append_nil]
      exact h.few jobId deadAt
  · intro c hc hran
    rcases List.mem_append.mp hc with hc | hc
    · exact h.ran c hc hran
    · rw [List.mem_singleton.mp hc] at hran
      cases hran
  · dsimp only at hj'
    rw [hget] at hj'
    obtain ⟨j₀, hj₀, rfl⟩ := Option.map_eq_some_iff.mp hj'
    have hrowInv := h.rows id j₀ hj₀
    split
    · rename_i heq
      -- the claimed row itself: counter and list grow together
      obtain rfl := Table.eq_of_key_eq (Table.mem_of_get hj₀) (Table.mem_of_get hj) (heq.trans hid.symm)
      refine ⟨fun _ => ?_, fun hnot => absurd hdue.1 hnot⟩
      have hlength : (live (s.claims ++ [newClaim s row j₀.completedAt now]) j₀.id j₀.completedAt).length
          = (live s.claims row.id j₀.completedAt).length + 1 := by
        rw [live_newClaim, if_pos ⟨hid.symm, rfl⟩, List.length_append, List.length_singleton, hid]
      calc j₀.deadLetterAttempts + 1 = ((live s.claims row.id j₀.completedAt).length : ℤ)
        + 1 := by rw [hattempts, hcount]
        _ = ((live (s.claims ++ [newClaim s row j₀.completedAt now]) j₀.id j₀.completedAt).length : ℤ) := by
          rw [hlength, Nat.cast_add, Nat.cast_one]
    · rename_i heq
      refine ⟨fun hdead => ?_, hrowInv.noCallback⟩
      rw [live_newClaim, if_neg fun hletter => heq hletter.1.symm, List.append_nil]
      exact hrowInv.count hdead
  · intro q sweep' hsweep' held hheld
    by_cases hq : q = p
    · subst hq
      obtain rfl := Option.some.inj ((Sweeping.sweeps_set_self s q _).symm.trans hsweep')
      obtain rfl := Option.some.inj hheld
      refine ⟨newClaim s row j.completedAt now, List.mem_append_right _ (List.mem_singleton_self _), ?_, rfl⟩
      exact ⟨rfl, rfl, rfl, rfl⟩
    · have hsweep' : sweep' ∈ s.sweeps q := (Sweeping.sweeps_set_of_ne s hq _).symm.trans hsweep'
      obtain ⟨c, hc, his⟩ := h.held q sweep' hsweep' held hheld
      exact ⟨c, List.mem_append_left _ hc, his⟩
  · -- the ticket is taken from behind the list, where nobody has one
    have hnew (q : ℕ) (hq : q ≠ p) : ∀ held ∈ heldOf (s.sweeps q), held.1 ≠ s.claims.length :=
      fun held hheld => (h.held_lt hheld).ne
    intro q q' hne held hheld held' hheld'
    dsimp only at hheld hheld'
    by_cases hq : q = p
    · subst hq
      rw [Sweeping.sweeps_set_self] at hheld
      rw [Sweeping.sweeps_set_of_ne s hne.symm] at hheld'
      obtain rfl := Option.some.inj hheld
      exact (hnew q' hne.symm held' hheld').symm
    rw [Sweeping.sweeps_set_of_ne s hq] at hheld
    by_cases hq' : q' = p
    · subst hq'
      rw [Sweeping.sweeps_set_self] at hheld'
      obtain rfl := Option.some.inj hheld'
      exact hnew q hq held hheld
    · rw [Sweeping.sweeps_set_of_ne s hq'] at hheld'
      exact h.apart q q' hne held hheld held' hheld'

/-- A write that finds no claim of its own leaves the rows as they are. -/
theorem get_updateDeadLetter_of_false {db : Db} {write : RowWrite}
    (h : (updateDeadLetter db job write).1 = false)
    (id : JobId) : (updateDeadLetter db job write).2.jobs.get id = db.jobs.get id := by
  rw [get_updateDeadLetter]
  cases hj : db.jobs.get id with
  | none => rfl
  | some j =>
    rw [Option.map_some, if_neg]
    intro hlive
    have hget : db.jobs.get job.id = some j := hlive.1 ▸ Table.get_key (Table.mem_of_get hj)
    have hcount : db.jobs.rowcount (LiveDelivery job) = 1 :=
      (Table.rowcount_eq_one_iff fun _ hl => hl.1).mpr ⟨j, hget, hlive⟩
    rw [updateDeadLetter, hcount] at h
    cases h

/-- **A claim is undone**: it was the newest, and the ticket goes back. -/
theorem DeliveryInv.undo (h : DeliveryInv s) (hseen : SeenInv s) {t : Option Sweep} {write : RowWrite}
    (hsweep : sweep ∈ s.sweeps p)
    (hheld : held ∈ sweep.turn.held) (hstarted : sweep.turn.started = false) (ht : heldOf t = none)
    (hwrites : (updateDeadLetter s.db held.2 write).1 = true)
    (hwrite : ∀ j, (write.set j).status = j.status ∧ (write.set j).completedAt = j.completedAt
      ∧ (write.set j).deadLetterAttempts = held.2.deliveryAttempt - 1) :
    DeliveryInv { s.set p t with
      db := (updateDeadLetter s.db held.2 write).2, claims :=
        modifyClaim s.claims held.1 CallbackClaim.undo } := by
  obtain ⟨j, hj, hlive⟩ := (Table.rowcount_eq_one_iff fun _ hl => hl.1).mp (beq_iff_eq.mp hwrites)
  obtain ⟨c, hc, his, hown, hran, hlast⟩ := h.newest hseen hsweep hheld hj hlive
  obtain ⟨front, hfront⟩ := List.getLast?_eq_some_iff.mp hlast
  have hlength : (modifyClaim s.claims held.1 CallbackClaim.undo).length = s.claims.length := List.length_map ..
  have hnodup : (s.claims.map CallbackClaim.number).Nodup := h.numbers ▸ List.nodup_range
  -- of its own letter the newest claim goes, of every other none
  have hkept : (live s.claims j.id j.completedAt).filter (fun c => c.number ≠ held.1) = front := by
    have hnodup : ((front ++ [c]).map CallbackClaim.number).Nodup :=
      hfront ▸ hnodup.sublist (List.filter_sublist.map _)
    rw [List.map_append, List.map_singleton] at hnodup
    rw [hfront, List.filter_append]
    have hkeep : front.filter (fun c => c.number ≠ held.1) = front := by
      refine List.filter_eq_self.mpr fun c' hc' => ?_
      have hne := (List.nodup_append.mp hnodup).2.2 _ (List.mem_map_of_mem hc') _ (List.mem_singleton_self _)
      simpa [his.number] using hne
    have hgone : [c].filter (fun c => c.number ≠ held.1) = [] := by simp [his.number]
    rw [hkeep, hgone, List.append_nil]
  have hother {jobId : JobId} {deadAt : Option Instant} (hne : ¬(j.id = jobId ∧ j.completedAt = deadAt)) :
      (live s.claims jobId deadAt).filter (fun c => c.number ≠ held.1) = live s.claims jobId deadAt := by
    refine List.filter_eq_self.mpr fun c' hc' => ?_
    obtain ⟨hmem, hid, hdead, -⟩ := mem_live.mp hc'
    refine decide_eq_true fun heq => hne ?_
    obtain rfl := eq_of_number h.numbers hmem hc (heq.trans his.number.symm)
    exact ⟨hlive.1.trans (his.jobId.symm.trans hid), hown.symm.trans hdead⟩
  have hnumbered := h.numbered j.id j.completedAt
  rw [hfront] at hnumbered
  refine ⟨?_, fun jobId deadAt => ?_, fun jobId deadAt => ?_, fun c' hc' hran' => ?_, fun id j' hj' => ?_, ?_,
    ?_⟩
  · dsimp only
    rw [map_number_modifyClaim fun c => (rfl : c.undo.number = c.number), hlength]
    exact h.numbers
  · dsimp only
    rw [live_released]
    by_cases hletter : j.id = jobId ∧ j.completedAt = deadAt
    · obtain ⟨rfl, rfl⟩ := hletter
      rw [hkept]
      exact (numbered_concat.mp hnumbered).1
    · rw [hother hletter]
      exact h.numbered jobId deadAt
  · dsimp only
    rw [live_released]
    exact (Int.ofNat_le.mpr (List.length_filter_le _ _)).trans (h.few jobId deadAt)
  · obtain ⟨c₀, hc₀, rfl⟩ := mem_modifyClaim hc'
    by_cases hnumber : c₀.number = held.1
    · -- its callback was not started
      obtain rfl := eq_of_number h.numbers hc₀ hc (hnumber.trans his.number.symm)
      rw [if_pos hnumber] at hran'
      exact absurd (hran'.symm.trans hran) (by simp [hstarted])
    · rw [if_neg hnumber] at hran' ⊢
      exact h.ran c₀ hc₀ hran'
  · dsimp only at hj'
    rw [get_updateDeadLetter] at hj'
    obtain ⟨j₀, hj₀, rfl⟩ := Option.map_eq_some_iff.mp hj'
    have hrow := h.rows id j₀ hj₀
    by_cases hlive₀ : LiveDelivery held.2 j₀
    · obtain rfl := Table.eq_of_key_eq (Table.mem_of_get hj₀) (Table.mem_of_get hj) (hlive₀.1.trans hlive.1.symm)
      obtain ⟨hstatus, hcompleted, hcount⟩ := hwrite j₀
      rw [if_pos hlive₀]
      refine ⟨fun _ => ?_, fun hnot => absurd (hstatus.trans hlive.2.1) hnot⟩
      have hcounted := hrow.count hlive.2.1
      rw [hfront, List.length_append, List.length_singleton, hlive.2.2.2.1] at hcounted
      rw [hcount, write.keepsId, hcompleted, live_released, hkept]
      omega
    · rw [if_neg hlive₀]
      refine ⟨fun hdead => ?_, hrow.noCallback⟩
      rw [live_released, hother, hrow.count hdead]
      rintro ⟨hid, -⟩
      obtain rfl := Table.eq_of_key_eq (Table.mem_of_get hj₀) (Table.mem_of_get hj) hid.symm
      exact hlive₀ hlive
  · intro q sweep' hsweep' held' hheld'
    by_cases hq : q = p
    · subst hq
      have hnone : held' ∈ heldOf t := by
        rw [(Sweeping.sweeps_set_self s q t).symm.trans hsweep']
        exact hheld'
      rw [ht] at hnone
      cases hnone
    · have hsweep' : sweep' ∈ s.sweeps q := (Sweeping.sweeps_set_of_ne s hq _).symm.trans hsweep'
      obtain ⟨c', hc', his', hran'⟩ := h.held q sweep' hsweep' held' hheld'
      have hne : c'.number ≠ held.1 := by
        rw [his'.number]
        exact h.apart q p hq held' (mem_heldOf.mpr ⟨sweep', hsweep', hheld'⟩) held
          (mem_heldOf.mpr ⟨sweep, hsweep, hheld⟩)
      have hmem := modifyClaim_mem CallbackClaim.undo held.1 hc'
      rw [if_neg hne] at hmem
      exact ⟨c', hmem, his', hran'⟩
  · have hset := h.set (show ∀ sweep ∈ t, ∀ held ∈ sweep.turn.held, ∃ sweep₀ ∈ s.sweeps p,
        held ∈ sweep₀.turn.held ∧ sweep.turn.started = sweep₀.turn.started by
      intro sweep' hsweep' held' hheld'
      have hnone : held' ∈ heldOf t := by
        rw [Option.mem_def.mp hsweep']
        exact hheld'
      rw [ht] at hnone
      cases hnone)
    exact hset.apart

/-- **A call that is not about callbacks** leaves a dead letter as it is or replays it, and does not touch the
callback of any other job. -/
theorem RowStep.plain (h : RowStep c j j') (hc : c.Plain) :
    (j.status = .deadLetter → j' = j ∨ j'.status ≠ .deadLetter
      ∧ j'.deadLetterNotifiedAt = none ∧ j'.deadLetterNotifyAfter = none ∧ j'.deadLetterAttempts = 0)
      ∧ (j.status ≠ .deadLetter → SameCallback j j') := by
  have hsame (hs : j.status = .pending ∨ j.status = .claimed) (hcall : SameCallback j j') :
      (j.status = .deadLetter → j' = j ∨ j'.status ≠ .deadLetter
        ∧ j'.deadLetterNotifiedAt = none ∧ j'.deadLetterNotifyAfter = none ∧ j'.deadLetterAttempts = 0)
        ∧ (j.status ≠ .deadLetter → SameCallback j j') := by
    refine ⟨fun hdead => ?_, fun _ => hcall⟩
    rcases hs with hs | hs <;> cases hs.symm.trans hdead
  cases h with
  | keep => exact ⟨fun _ => .inl rfl, fun _ => ⟨rfl, rfl, rfl, rfl⟩⟩
  | claim hp => exact hsame (.inl hp) ⟨rfl, rfl, rfl, rfl⟩
  | claimSelected ht => exact hsame (.inl ht.2) ⟨rfl, rfl, rfl, rfl⟩
  | renew hh | release hh => exact hsame (.inr hh.2.1) ⟨rfl, rfl, rfl, rfl⟩
  | settle ho hset =>
    refine hsame (.inr ho.2.1) ?_
    cases hset <;> exact ⟨rfl, rfl, rfl, rfl⟩
  | expireLast he _ | expireRequeue he _ => exact hsame (.inr he.1) ⟨rfl, rfl, rfl, rfl⟩
  | replay hd => exact ⟨fun _ => .inr ⟨by rintro ⟨⟩, rfl, rfl, rfl⟩, fun hnot => absurd hd hnot⟩
  | claimCallback | notified | deferCallback | releaseCallback => exact absurd hc not_false

/-- A new dead letter was not come upon before, so that it has no claims. -/
theorem DeliveryInv.other (h : DeliveryInv s) (hseen : SeenInv s) (hok : s.DatedApart (.other c)) :
    DeliveryInv { s with db := c.run s.db } := by
  obtain ⟨hplain, hdated⟩ := hok
  refine h.write fun id j' hj' => ?_
  rcases run_get c hj' with ⟨-, hnew⟩ | ⟨j, hj, hstep⟩
  · -- a new row is no dead letter
    refine ⟨fun hdead => ?_, fun _ => ?_⟩
    · cases (status_newRow hnew).symm.trans hdead
    · cases c with
      | insert event subscriberId queue maxAttempts now availableAt jobId =>
        obtain rfl := Option.some.inj hnew
        exact ⟨rfl, rfl, rfl⟩
      | _ => cases hnew
  have hrow := h.rows id j hj
  obtain ⟨hdead, hnotDead⟩ := hstep.plain hplain
  by_cases hs : j.status = .deadLetter
  · rcases hdead hs with rfl | ⟨hs', hnone⟩
    · exact hrow
    · exact ⟨fun hs'' => absurd hs'' hs', fun _ => hnone⟩
  · obtain ⟨hnotified, hafter, -, hcount⟩ := hnotDead hs
    obtain ⟨hnotified₀, hafter₀, hcount₀⟩ := hrow.noCallback hs
    refine ⟨fun hs' => ?_, fun _ => ⟨hnotified.trans hnotified₀, hafter.trans hafter₀, hcount.trans hcount₀⟩⟩
    have hid : j'.id = j.id := (Table.key_of_get hj').trans (Table.key_of_get hj).symm
    have hget : j' ∈ (c.run s.db).jobs.get j.id := Table.key_of_get hj ▸ hj'
    have hnone : live s.claims j'.id j'.completedAt = [] := by
      refine List.filter_eq_nil_iff.mpr fun claim hclaim hletter => ?_
      obtain ⟨hjob, hdeadAt, -⟩ := of_decide_eq_true hletter
      refine hdated j (Table.mem_of_get hj) j' hget hs hs' ?_
      have hmem := hseen.claims claim.bare (List.mem_map_of_mem hclaim)
      rwa [show (claim.bare.jobId, claim.bare.deadAt) = j'.letter from Prod.ext hjob hdeadAt] at hmem
    rw [hnone, hcount, hcount₀]
    rfl

/-- A sweep without a claim in hand. -/
theorem DeliveryInv.letGo (h : DeliveryInv s) {t : Option Sweep} (ht : heldOf t = none) :
    DeliveryInv (s.set p t) := by
  refine h.set fun sweep hsweep held hheld => ?_
  have hnone : held ∈ heldOf t := by
    rw [Option.mem_def.mp hsweep]
    exact hheld
  rw [ht] at hnone
  cases hnone

/-- A dead letter that is gone stays so while every dead letter there is was one before. -/
theorem Gone.mono {db db' : Db} (h : Gone db job) (hrows : ∀ j' ∈ db'.jobs.get job.id, j'.status = .deadLetter →
    ∃ j ∈ db.jobs.get job.id, j.status = .deadLetter ∧ j'.completedAt = j.completedAt) : Gone db' job := by
  intro j' hj' hdead'
  obtain ⟨j, hj, hdead, hsame⟩ := hrows j' hj' hdead'
  rw [hsame]
  exact h j hj hdead

/-- The write of an outcome brings back no dead letter. -/
theorem Gone.write {db : Db} {claim : DeadLetterJob} {write : RowWrite} (h : Gone db job)
    (hwrite : ∀ j, (write.set j).status = j.status ∧ (write.set j).completedAt = j.completedAt) :
    Gone (updateDeadLetter db claim write).2 job := by
  refine h.mono fun j' hj' hdead' => ?_
  rw [get_updateDeadLetter] at hj'
  obtain ⟨j, hj, rfl⟩ := Option.map_eq_some_iff.mp hj'
  refine ⟨j, hj, ?_⟩
  split at hdead'
  · rename_i hlive
    rw [if_pos hlive]
    exact ⟨(hwrite j).1.symm.trans hdead', (hwrite j).2⟩
  · rename_i hnot
    rw [if_neg hnot]
    exact ⟨hdead', rfl⟩

/-- Neither does a claim. -/
theorem Gone.claim {db : Db} {jobs : Table ProcessingJob.id} {r : CallbackRequest} {row : ProcessingJob}
    (h : Gone db job)
    (hget : ∀ id, jobs.get id = (db.jobs.get id).map fun j => if j.id = row.id then r.claimRow j else j) :
    Gone { db with jobs } job := by
  refine h.mono fun j' hj' hdead' => ?_
  dsimp only at hj'
  rw [hget] at hj'
  obtain ⟨j, hj, rfl⟩ := Option.map_eq_some_iff.mp hj'
  refine ⟨j, hj, ?_⟩
  split at hdead'
  · rename_i hid
    rw [if_pos hid]
    exact ⟨hdead', rfl⟩
  · rename_i hid
    rw [if_neg hid]
    exact ⟨hdead', rfl⟩

/-- Nor any other call, of the dead letters that were come upon. -/
theorem Gone.other (h : Gone s.db job) (hok : s.DatedApart (.other c)) (hseen : job.letter ∈ s.seen) :
    Gone (c.run s.db) job := by
  obtain ⟨hplain, hdated⟩ := hok
  intro j' hj' hdead' hdeadAt
  rcases run_get c hj' with ⟨-, hnew⟩ | ⟨j, hj, hstep⟩
  · cases (status_newRow hnew).symm.trans hdead'
  by_cases hs : j.status = .deadLetter
  · rcases (hstep.plain hplain).1 hs with rfl | ⟨hs', -⟩
    · exact h j' hj hs hdeadAt
    · exact hs' hdead'
  · have hget : j' ∈ (c.run s.db).jobs.get j.id := Table.key_of_get hj ▸ hj'
    refine hdated j (Table.mem_of_get hj) j' hget hs hdead' ?_
    have hletter : j'.letter = job.letter := by
      rw [ProcessingJob.letter, DeadLetterJob.letter, hdeadAt, Table.key_of_get hj']
    rwa [hletter]

/-- **A sweep goes on**, with the claim it had or without one, and no dead letter comes back. -/
theorem SeenInv.set (h : SeenInv s) {t : Option Sweep} {db : Db} {claims : List CallbackClaim} {clock : Instant}
    (hpicked : pickedOf t = none) (hheld : ∀ held ∈ heldOf t, held ∈ heldOf (s.sweeps p))
    (hclaims : claims.map CallbackClaim.bare = s.claims.map CallbackClaim.bare)
    (hgone : ∀ job, Gone s.db job → Gone db job) : SeenInv { s.set p t with db, claims, clock } := by
  have hsame (q : ℕ) : ∀ held ∈ heldOf ((s.set p t).sweeps q), held ∈ heldOf (s.sweeps q) := by
    intro held hmem
    by_cases hq : q = p
    · subst hq
      rw [Sweeping.sweeps_set_self] at hmem
      exact hheld held hmem
    · rwa [Sweeping.sweeps_set_of_ne s hq] at hmem
  refine ⟨?_, fun q picked hmem => ?_, fun q held hmem => h.held q held (hsame q held hmem), ?_⟩
  · dsimp only
    rw [hclaims]
    exact h.claims
  · dsimp only at hmem
    by_cases hq : q = p
    · subst hq
      rw [Sweeping.sweeps_set_self, hpicked] at hmem
      cases hmem
    · rw [Sweeping.sweeps_set_of_ne s hq] at hmem
      exact h.picked q picked hmem
  · intro q held hmem c hc hnumber
    dsimp only at hc
    rw [hclaims] at hc
    exact (h.own q held (hsame q held hmem) c hc hnumber).imp_right (hgone held.2)

/-- **A row is selected**: its dead letter is come upon. -/
theorem SeenInv.select (h : SeenInv s) {now : Instant} {row : ProcessingJob} {r : CallbackRequest}
    (hrow : row ∈ callbackRows s.db r) (hmax : r.maxDeliveries = some maxDeliveries) :
    SeenInv { s.set p (some { sweep with turn := .selected now row }) with
      clock := now, seen := row.letter :: s.seen } := by
  obtain ⟨-, hselects⟩ := mem_callbackRows hrow
  have hother {q : ℕ} (hq : q ≠ p) :
      (s.set p (some { sweep with turn := .selected now row })).sweeps q = s.sweeps q :=
    Sweeping.sweeps_set_of_ne s hq _
  have hself : (s.set p (some { sweep with turn := .selected now row })).sweeps p
      = some { sweep with turn := .selected now row } := Sweeping.sweeps_set_self s p _
  refine ⟨fun c hc => List.mem_cons_of_mem _ (h.claims c hc), fun q picked hmem => ?_, fun q held hmem => ?_,
    fun q held hmem => ?_⟩
  · dsimp only at hmem
    by_cases hq : q = p
    · subst hq
      rw [hself] at hmem
      obtain rfl := Option.some.inj hmem
      -- the SELECT asks for rows with fewer claims than the limit
      exact ⟨List.mem_cons_self, hselects.2.2.1 maxDeliveries (Option.mem_def.mpr hmax)⟩
    · rw [hother hq] at hmem
      exact (h.picked q picked hmem).imp_left (List.mem_cons_of_mem _)
  · dsimp only at hmem
    by_cases hq : q = p
    · subst hq
      rw [hself] at hmem
      cases hmem
    · rw [hother hq] at hmem
      exact List.mem_cons_of_mem _ (h.held q held hmem)
  · dsimp only at hmem
    by_cases hq : q = p
    · subst hq
      rw [hself] at hmem
      cases hmem
    · rw [hother hq] at hmem
      exact h.own q held hmem

/-- **A claim is handed on**: the dead letter that it counted is the one that was selected, or that one is
gone. -/
theorem SeenInv.claim (h : SeenInv s) (hinv : DeliveryInv s) {jobs : Table ProcessingJob.id} {now : Instant}
    {row : ProcessingJob} {r : CallbackRequest} (hpicked : (now, row) ∈ pickedOf (s.sweeps p))
    (hj : s.db.jobs.get row.id = some j)
    (hget : ∀ id, jobs.get id = (s.db.jobs.get id).map fun j => if j.id = row.id then r.claimRow j else j) :
    SeenInv { s.set p (some { sweep with turn := .claimed s.claims.length (claimedCallback row) }) with
      db := { s.db with jobs }, claims := s.claims ++ [newClaim s row j.completedAt now],
      seen := (row.id, j.completedAt) :: s.seen } := by
  have hbare : (newClaim s row j.completedAt now).bare = newClaim s row j.completedAt now := rfl
  have hother {q : ℕ} (hq : q ≠ p) := Sweeping.sweeps_set_of_ne s hq
    (some { sweep with turn := .claimed s.claims.length (claimedCallback row) })
  have hself := Sweeping.sweeps_set_self s p
      (some { sweep with turn := .claimed s.claims.length (claimedCallback row) })
  refine ⟨fun c hc => ?_, fun q picked hmem => ?_, fun q held hmem => ?_, fun q held hmem c hc hnumber => ?_⟩
  · dsimp only at hc
    rw [List.map_append, List.map_singleton, hbare] at hc
    rcases List.mem_append.mp hc with hc | hc
    · exact List.mem_cons_of_mem _ (h.claims c hc)
    · rw [List.mem_singleton.mp hc]
      exact List.mem_cons_self
  · dsimp only at hmem
    by_cases hq : q = p
    · subst hq
      rw [hself] at hmem
      cases hmem
    · rw [hother hq] at hmem
      exact (h.picked q picked hmem).imp_left (List.mem_cons_of_mem _)
  · dsimp only at hmem
    by_cases hq : q = p
    · subst hq
      rw [hself] at hmem
      obtain rfl := Option.some.inj hmem
      exact List.mem_cons_of_mem _ (h.picked q _ hpicked).1
    · rw [hother hq] at hmem
      exact List.mem_cons_of_mem _ (h.held q held hmem)
  · dsimp only at hmem hc
    rw [List.map_append, List.map_singleton, hbare] at hc
    by_cases hq : q = p
    · subst hq
      rw [hself] at hmem
      obtain rfl := Option.some.inj hmem
      rcases List.mem_append.mp hc with hc | hc
      · obtain ⟨c₀, hc₀, rfl⟩ := List.mem_map.mp hc
        exact absurd hnumber (number_lt hinv.numbers hc₀).ne
      rw [List.mem_singleton.mp hc]
      refine or_iff_not_imp_left.mpr fun hne j' hj' _ => ?_
      -- the row stands for another dead letter than the one that was selected
      dsimp only at hj'
      obtain ⟨j₀, hj₀, rfl⟩ := Option.map_eq_some_iff.mp ((hget _).symm.trans hj')
      obtain rfl := Option.some.inj (hj.symm.trans hj₀)
      split
      · exact hne
      · exact hne
    · rw [hother hq] at hmem
      rcases List.mem_append.mp hc with hc | hc
      · exact (h.own q held hmem c hc hnumber).imp_right fun hgone => hgone.claim hget
      · rw [List.mem_singleton.mp hc] at hnumber
        exact absurd hnumber (hinv.held_lt hmem).ne'

/-! ## What a step does -/

/-- **What a step does to the sweeps**, and to the tables for them. -/
inductive Sweeping.Moves (s : Sweeping) : SweepStep → Sweeping → Prop
  /-- There is nothing to sweep. -/
  | nothing {p : ℕ} {subscribers : List SubscriberId} {jobIds : Option (List JobId)} {limit : ℕ} :
    s.Moves (.begin p subscribers jobIds limit) s
  /-- A sweep begins, goes on to its next turn or ends, without a claim. -/
  | letGo {a : SweepStep} {p : ℕ} {t : Option Sweep} (hheld : heldOf t = none) (hpicked : pickedOf t = none) :
    s.Moves a (s.set p t)
  /-- No callback is owed. -/
  | exhausted {p : ℕ} {now : Instant} : s.Moves (.select p now) { s.set p none with clock := now }
  | selected {p : ℕ} {now : Instant} {sweep : Sweep} {row : ProcessingJob}
      (hrow : row ∈ callbackRows s.db (sweep.request now)) :
    s.Moves (.select p now) { s.set p (some { sweep with turn := .selected now row }) with
      clock := now, seen := row.letter :: s.seen }
  /-- The compare-and-set does not find its row. -/
  | missed {p : ℕ} {jobs : Table ProcessingJob.id} (hget : ∀ id, jobs.get id = s.db.jobs.get id) :
    s.Moves (.claim p) { s.set p none with db := { s.db with jobs } }
  | claimed {p : ℕ} {now : Instant} {sweep : Sweep} {row j : ProcessingJob} {jobs : Table ProcessingJob.id}
      (hsweep : sweep ∈ s.sweeps p) (hturn : sweep.turn = .selected now row)
      (hj : s.db.jobs.get row.id = some j) (hclaimable : CallbackClaimable row now j)
      (hget : ∀ id, jobs.get id = (s.db.jobs.get id).map fun j =>
        if j.id = row.id then (sweep.request now).claimRow j else j) :
    s.Moves (.claim p)
      { s.set p (some { sweep with turn := .claimed s.claims.length (claimedCallback row) }) with
      db := { s.db with jobs }, claims := s.claims ++ [newClaim s row j.completedAt now],
      seen := (row.id, j.completedAt) :: s.seen }
  | started {p number : ℕ} {registered : Bool} {sweep : Sweep} {job : DeadLetterJob}
      (hsweep : sweep ∈ s.sweeps p) (hturn : sweep.turn = .claimed number job) :
    s.Moves (.lookUp p registered) { s.set p (some { sweep with turn := .running number job }) with
      claims := modifyClaim s.claims number CallbackClaim.start }
  /-- The sweep keeps its claim, and writes nothing yet. -/
  | goesOn {a : SweepStep} {p : ℕ} {sweep next : Sweep} {held : ℕ × DeadLetterJob}
      (hsweep : sweep ∈ s.sweeps p) (hheld : held ∈ sweep.turn.held) (hnext : next.turn.held = some held)
      (hpicked : next.turn.picked = none) (hstarted : next.turn.started = sweep.turn.started) :
    s.Moves a (s.set p (some next))
  | undone {p number : ℕ} {now : Instant} {sweep : Sweep} {job : DeadLetterJob}
      (hsweep : sweep ∈ s.sweeps p) (hturn : sweep.turn = .unregistered number job)
      (hwrites : (releaseDeadLetterClaim s.db job).1 = true) :
    s.Moves (.record p now) { s.set p (some sweep.next) with
      db := (releaseDeadLetterClaim s.db job).2, claims := modifyClaim s.claims number CallbackClaim.undo }
  /-- The dead letter is not as it was claimed. -/
  | notUndone {p number : ℕ} {now : Instant} {sweep : Sweep} {job : DeadLetterJob}
      (hsweep : sweep ∈ s.sweeps p) (hturn : sweep.turn = .unregistered number job)
      (hwrites : (releaseDeadLetterClaim s.db job).1 = false) :
    s.Moves (.record p now) { s.set p (some sweep.next) with db := (releaseDeadLetterClaim s.db job).2 }
  /-- The callback returned, or raised. -/
  | written {p : ℕ} {now : Instant} {sweep : Sweep} {held : ℕ × DeadLetterJob} {write : RowWrite}
      (hsweep : sweep ∈ s.sweeps p) (hheld : held ∈ sweep.turn.held)
      (hwrite : ∀ j, (write.set j).status = j.status ∧ (write.set j).completedAt = j.completedAt
        ∧ (write.set j).deadLetterAttempts = j.deadLetterAttempts) :
    s.Moves (.record p now) { s.set p (some sweep.next) with db := (updateDeadLetter s.db held.2 write).2 }
  | other {c : Call} : s.Moves (.other c) { s with db := c.run s.db }

/-- Every step is one of these. -/
theorem Sweeping.moves_of_step {a : SweepStep} (hs : s.step a = some s') : s.Moves a s' := by
  cases a with
  | begin p subscribers jobIds limit =>
    simp only [Sweeping.step] at hs
    split at hs
    · cases hs
    · split at hs
      · obtain rfl := Option.some.inj hs
        exact .nothing
      · obtain rfl := Option.some.inj hs
        exact .letGo rfl rfl
  | select p now =>
    simp only [Sweeping.step] at hs
    split at hs
    · split at hs
      · split at hs
        · obtain rfl := Option.some.inj hs
          exact .letGo rfl rfl
        · split at hs
          · obtain rfl := Option.some.inj hs
            exact .exhausted
          · rename_i row rows hrows
            obtain rfl := Option.some.inj hs
            exact .selected (hrows ▸ List.mem_cons_self)
      · cases hs
    · cases hs
  | claim p =>
    simp only [Sweeping.step] at hs
    split at hs
    · rename_i sweep hsweep
      split at hs
      · rename_i now row hturn
        split at hs
        · rename_i jobs hclaim
          obtain rfl := Option.some.inj hs
          exact .missed (get_of_no_claim hclaim)
        · rename_i job rest jobs hclaim
          obtain rfl := Option.some.inj hs
          obtain ⟨rfl, j, hj, hclaimable, hget⟩ := claim_of_row hclaim
          have hcounted : (s.db.jobs.get row.id).bind ProcessingJob.completedAt = j.completedAt := by
            rw [hj]
            rfl
          rw [hcounted]
          exact .claimed hsweep hturn hj hclaimable hget
      · cases hs
    · cases hs
  | lookUp p registered =>
    simp only [Sweeping.step] at hs
    split at hs
    · rename_i sweep hsweep
      split at hs
      · rename_i number job hturn
        split at hs
        · obtain rfl := Option.some.inj hs
          exact .started hsweep hturn
        · obtain rfl := Option.some.inj hs
          exact .goesOn hsweep (by rw [hturn]; rfl) rfl rfl (by rw [hturn]; rfl)
      · cases hs
    · cases hs
  | finish p error =>
    simp only [Sweeping.step] at hs
    split at hs
    · rename_i sweep hsweep
      split at hs
      · rename_i number job hturn
        obtain rfl := Option.some.inj hs
        exact .goesOn hsweep (by rw [hturn]; rfl) rfl rfl (by rw [hturn]; rfl)
      · rename_i number job error hturn
        obtain rfl := Option.some.inj hs
        exact .goesOn hsweep (by rw [hturn]; rfl) rfl rfl (by rw [hturn]; rfl)
      · cases hs
    · cases hs
  | record p now =>
    simp only [Sweeping.step] at hs
    split at hs
    · rename_i sweep hsweep
      split at hs
      · rename_i number job hturn
        obtain rfl := Option.some.inj hs
        cases hwrites : (releaseDeadLetterClaim s.db job).1 with
        | true =>
          rw [if_pos rfl]
          exact .undone hsweep hturn hwrites
        | false =>
          rw [if_neg Bool.false_ne_true]
          exact .notUndone hsweep hturn hwrites
      · rename_i number job hturn
        obtain rfl := Option.some.inj hs
        exact @Sweeping.Moves.written s p now sweep (number, job) _ hsweep (by rw [hturn]; rfl)
          fun _ => ⟨rfl, rfl, rfl⟩
      · rename_i number job error hturn
        obtain rfl := Option.some.inj hs
        exact @Sweeping.Moves.written s p now sweep (number, job) _ hsweep (by rw [hturn]; rfl)
          fun _ => ⟨rfl, rfl, rfl⟩
      · cases hs
    · cases hs
  | skip p =>
    simp only [Sweeping.step] at hs
    split at hs
    · split at hs
      · obtain rfl := Option.some.inj hs
        exact .letGo rfl rfl
      · obtain rfl := Option.some.inj hs
        exact .letGo rfl rfl
      · obtain rfl := Option.some.inj hs
        exact .letGo rfl rfl
      · cases hs
    · cases hs
  | die p =>
    obtain rfl := Option.some.inj hs
    exact .letGo rfl rfl
  | other c =>
    obtain rfl := Option.some.inj hs
    exact .other

/-- **Every step keeps it.** -/
theorem seenInv_step {a : SweepStep} (h : SeenInv s) (hinv : DeliveryInv s) (hok : s.DatedApart a)
    (hs : s.step a = some s') : SeenInv s' := by
  cases Sweeping.moves_of_step hs with
  | nothing => exact h
  | letGo hheld hpicked =>
    exact h.set hpicked (by rw [hheld]; rintro held ⟨⟩) rfl fun _ hgone => hgone
  | exhausted => exact h.set rfl (by rintro held ⟨⟩) rfl fun _ hgone => hgone
  | selected hrow => exact h.select hrow rfl
  | missed hget =>
    refine h.set rfl (by rintro held ⟨⟩) rfl fun job hgone => hgone.mono fun j hj hdead => ?_
    exact ⟨j, (hget _).symm.trans hj, hdead, rfl⟩
  | claimed hsweep hturn hj _ hget =>
    exact h.claim hinv (mem_pickedOf.mpr ⟨_, hsweep, by rw [hturn]; rfl⟩) hj hget
  | @started p number _ sweep job hsweep hturn =>
    have hheld : (number, job) ∈ heldOf (s.sweeps p) := mem_heldOf.mpr ⟨sweep, hsweep, by rw [hturn]; rfl⟩
    exact h.set rfl (by rintro held ⟨⟩; exact hheld) (bare_modifyClaim fun _ => rfl) fun _ hgone => hgone
  | @goesOn a p sweep next held hsweep hheld hnext hpicked =>
    have hinHand : held ∈ heldOf (s.sweeps p) := mem_heldOf.mpr ⟨sweep, hsweep, hheld⟩
    refine h.set hpicked (fun held' hmem => ?_) rfl fun _ hgone => hgone
    obtain rfl := Option.some.inj (hnext.symm.trans hmem)
    exact hinHand
  | undone =>
    refine h.set rfl (by rintro held ⟨⟩) (bare_modifyClaim fun _ => rfl) fun _ hgone => ?_
    exact hgone.write fun _ => ⟨rfl, rfl⟩
  | notUndone =>
    exact h.set rfl (by rintro held ⟨⟩) rfl fun _ hgone => hgone.write fun _ => ⟨rfl, rfl⟩
  | written _ _ hwrite =>
    refine h.set rfl (by rintro held ⟨⟩) rfl fun _ hgone => ?_
    exact hgone.write fun j => ⟨(hwrite j).1, (hwrite j).2.1⟩
  | other =>
    refine ⟨h.claims, h.picked, h.held, fun q held hmem claim hclaim hnumber => ?_⟩
    exact (h.own q held hmem claim hclaim hnumber).imp_right fun hgone => hgone.other hok (h.held q held hmem)

/-- It holds of a fresh installation. -/
theorem seenInv_init (clock : Instant) : SeenInv (Sweeping.init clock) := by
  refine ⟨?_, ?_, ?_, ?_⟩
  · rintro c ⟨⟩
  · rintro p picked ⟨⟩
  · rintro p held ⟨⟩
  · rintro p held ⟨⟩

/-- **Every step keeps the tickets right.** -/
theorem deliveryInv_step {a : SweepStep} (h : DeliveryInv s) (hseen : SeenInv s) (hok : s.DatedApart a)
    (hs : s.step a = some s') : DeliveryInv s' := by
  cases Sweeping.moves_of_step hs with
  | nothing => exact h
  | letGo hheld => exact h.letGo hheld
  | exhausted | selected => exact (h.letGo rfl).write h.rows
  | missed hget => exact (h.letGo rfl).write fun id j hj => h.rows id j ((hget id).symm.trans hj)
  | @claimed p now sweep row j jobs hsweep hturn hj hclaimable hget =>
    -- the sweep has no other claim in hand
    have hidle : heldOf (s.sweeps p) = none := by
      rw [Option.mem_def.mp hsweep, heldOf, Option.bind_some, hturn]
      rfl
    have hpicked : (now, row) ∈ pickedOf (s.sweeps p) :=
      mem_pickedOf.mpr ⟨sweep, hsweep, by rw [hturn]; rfl⟩
    exact h.claim hidle hj hclaimable (hseen.picked p _ hpicked).2 hget
  | @started p number _ sweep job hsweep hturn =>
    have hheld : (number, job) ∈ sweep.turn.held := by
      rw [hturn]
      rfl
    exact h.run hsweep hheld rfl rfl
  | goesOn hsweep hheld hnext hpicked hstarted =>
    refine h.set ?_
    rintro _ ⟨⟩ held' hheld'
    obtain rfl := Option.some.inj (hnext.symm.trans hheld')
    exact ⟨_, hsweep, hheld, hstarted⟩
  | @undone p number _ sweep job hsweep hturn hwrites =>
    have hheld : (number, job) ∈ sweep.turn.held := by
      rw [hturn]
      rfl
    exact h.undo hseen hsweep hheld (by rw [hturn]; rfl) rfl hwrites fun _ => ⟨rfl, rfl, rfl⟩
  | notUndone _ _ hwrites =>
    refine (h.letGo rfl).write fun id j hj => h.rows id j ?_
    exact (get_updateDeadLetter_of_false hwrites id).symm.trans hj
  | @written p _ sweep held write _ _ hwrite =>
    have hset : DeliveryInv (s.set p (some sweep.next)) := h.letGo rfl
    exact hset.outcome held.2 write hwrite
  | other => exact h.other hseen hok

/-- It holds of a fresh installation. -/
theorem deliveryInv_init (clock : Instant) : DeliveryInv (Sweeping.init clock) := by
  have hten : (0 : ℤ) ≤ maxDeliveries := by decide
  refine ⟨rfl, fun _ _ => numbered_nil, fun _ _ => hten, ?_, ?_, ?_, ?_⟩
  · intro c hc
    exact absurd hc List.not_mem_nil
  · rintro id j ⟨⟩
  · rintro p sweep ⟨⟩
  · rintro p q - held ⟨⟩

/-- The callbacks of one dead letter that were started are among the claims that were not undone. -/
theorem DeliveryInv.ran_le (h : DeliveryInv s) (jobId : JobId) (deadAt : Option Instant) :
    ((s.claims.filter fun c => c.jobId = jobId ∧ c.deadAt = deadAt ∧ c.ran = true).length : ℤ)
    ≤ maxDeliveries := by
  refine le_trans (Int.ofNat_le.mpr ?_) (h.few jobId deadAt)
  rw [live, ← List.countP_eq_length_filter, ← List.countP_eq_length_filter]
  refine List.countP_mono_left fun c hc hran => ?_
  obtain ⟨hid, hdead, hran⟩ := of_decide_eq_true hran
  exact decide_eq_true ⟨hid, hdead, h.ran c hc hran⟩

/-- **What the write of an outcome finds.** -/
theorem DeliveryInv.updates_iff (h : DeliveryInv s) (hseen : SeenInv s) (hsweep : sweep ∈ s.sweeps p)
    (hheld : held ∈ sweep.turn.held) (write : RowWrite) : (updateDeadLetter s.db held.2 write).1 = true ↔
      ∃ j ∈ s.db.jobs.get held.2.id, j.status = .deadLetter ∧ j.completedAt = held.2.deadAt
        ∧ j.deadLetterNotifiedAt = none
        ∧ ∃ c, (live s.claims j.id j.completedAt).getLast? = some c ∧ c.number = held.1 := by
  constructor
  · intro hwrites
    obtain ⟨j, hj, hlive⟩ := (Table.rowcount_eq_one_iff fun _ hl => hl.1).mp (beq_iff_eq.mp hwrites)
    obtain ⟨c, -, his, -, -, hlast⟩ := h.newest hseen hsweep hheld hj hlive
    exact ⟨j, hj, hlive.2.1, hlive.2.2.2.2, hlive.2.2.1, c, hlast, his.number⟩
  · rintro ⟨j, hj, hdead, hdeadAt, hnotified, c, hlast, hnumber⟩
    obtain ⟨c', hc', his, -⟩ := h.held p sweep hsweep held hheld
    obtain ⟨hc, -⟩ := mem_live.mp (List.mem_of_getLast? hlast)
    obtain rfl := eq_of_number h.numbers hc hc' (hnumber.trans his.number.symm)
    have hticket : j.deadLetterAttempts = held.2.deliveryAttempt := by
      rw [(h.rows _ j hj).count hdead, ← (h.numbered _ _).ticket_newest hlast, his.ticket]
    have hlive : LiveDelivery held.2 j := ⟨Table.key_of_get hj, hdead, hnotified, hticket, hdeadAt⟩
    exact beq_iff_eq.mpr ((Table.rowcount_eq_one_iff fun _ hl => hl.1).mpr ⟨j, hj, hlive⟩)

/-- An outcome is only written where nobody was notified. -/
theorem get_updateDeadLetter_of_notified {db : Db} {write : RowWrite} {id : JobId} (hj : db.jobs.get id = some j)
    (hnotified : j.deadLetterNotifiedAt ≠ none) : (updateDeadLetter db job write).2.jobs.get id = some j := by
  rw [get_updateDeadLetter, hj, Option.map_some, if_neg fun hlive => hnotified hlive.2.2.1]

/-- **A dead letter whose callback was notified** stays as it is until it is replayed. -/
theorem notified_step {a : SweepStep} (hok : s.DatedApart a) (hs : s.step a = some s')
    (hj : s.db.jobs.get j.id = some j)
    (hdead : j.status = .deadLetter) (hnotified : j.deadLetterNotifiedAt ≠ none) :
    s'.db.jobs.get j.id = some j ∨ ∃ now, a = .other (.replay j.id now) := by
  cases Sweeping.moves_of_step hs with
  | nothing | letGo | exhausted | selected | started | goesOn => exact .inl hj
  | missed hget => exact .inl ((hget j.id).trans hj)
  | claimed _ _ hj₀ hclaimable hget =>
    left
    dsimp only
    rw [hget, hj, Option.map_some, if_neg]
    intro hid
    -- a row that is claimed was not notified
    obtain rfl := Table.eq_of_key_eq (Table.mem_of_get hj) (Table.mem_of_get hj₀)
      (hid.trans hclaimable.1.symm)
    exact hnotified hclaimable.2.2.2.1
  | undone | notUndone | written => exact .inl (get_updateDeadLetter_of_notified hj hnotified)
  | @other c =>
    obtain ⟨j', hj', hstep⟩ := run_get_some c hj
    rcases (hstep.plain hok.1).1 hdead with rfl | ⟨hs', -⟩
    · exact .inl hj'
    · rcases hstep.of_deadLetter hdead with hs'' | ⟨id, now, rfl⟩
      · exact absurd hs'' hs'
      · right
        rw [Call.run, get_replay, hj, Option.map_some] at hj'
        obtain rfl := Option.some.inj hj'
        by_cases hid : DeadLettered id j
        · exact ⟨now, by rw [hid.1]⟩
        · rw [if_neg hid] at hs'
          exact absurd hdead hs'

end Steps

/-- What a run of sweeps leaves. -/
theorem deliveryInv_reaches {clock : Instant} {s : Sweeping} {ok : Sweeping → SweepStep → Prop}
    (hok : ∀ s a, ok s a → s.DatedApart a) (h : Reaches Sweeping.step ok (Sweeping.init clock) s) :
    DeliveryInv s ∧ SeenInv s :=
  h.invariant (fun s => DeliveryInv s ∧ SeenInv s) ⟨deliveryInv_init clock, seenInv_init clock⟩
    fun _ hinv hstep hs =>
      ⟨deliveryInv_step hinv.1 hinv.2 (hok _ _ hstep) hs, seenInv_step hinv.2 hinv.1 (hok _ _ hstep) hs⟩

/-- **Deliveries of a dead letter.** Whatever sweeps run in whatever processes, however long a callback takes,
whether it fails, is unregistered or its process dies, and however often jobs are replayed and dead-letter
again, also between the selection of a row and its compare-and-set, different dead letters of a job having
different instants: the delivery count of a dead letter is the number of its claims that were not undone; the
outcome of a claim is written if and only if the dead letter that its sweep was handed is the present one,
nobody was notified of it, and the claim is the newest of these; of each dead letter the claims start the
callback at most ten times; and once somebody was notified it stays as it is until it is replayed. -/
theorem dead_letter_deliveries {clock : Instant} {s : Sweeping}
    (h : Reaches Sweeping.step Sweeping.DatedApart (Sweeping.init clock) s) :
    (∀ j ∈ s.db.jobs.rows, j.status = .deadLetter →
        j.deadLetterAttempts = (live s.claims j.id j.completedAt).length)
      ∧ (∀ p, ∀ sweep ∈ s.sweeps p, ∀ held ∈ sweep.turn.held, ∀ write,
          (updateDeadLetter s.db held.2 write).1 = true ↔
            ∃ j ∈ s.db.jobs.get held.2.id, j.status = .deadLetter ∧ j.completedAt = held.2.deadAt
              ∧ j.deadLetterNotifiedAt = none
              ∧ ∃ c, (live s.claims j.id j.completedAt).getLast? = some c ∧ c.number = held.1)
      ∧ (∀ jobId deadAt,
          ((s.claims.filter fun c => c.jobId = jobId ∧ c.deadAt = deadAt ∧ c.ran = true).length : ℤ)
          ≤ maxDeliveries)
      ∧ ∀ a s', s.DatedApart a → s.step a = some s' → ∀ j ∈ s.db.jobs.rows, j.status = .deadLetter →
          j.deadLetterNotifiedAt ≠ none →
            s'.db.jobs.get j.id = some j ∨ ∃ now, a = .other (.replay j.id now) := by
  obtain ⟨hinv, hseen⟩ := deliveryInv_reaches (fun _ _ hok => hok) h
  refine ⟨fun j hj => ?_, fun p sweep hsweep held hheld write => ?_, hinv.ran_le, fun a s' hok hs j hj => ?_⟩
  · exact (hinv.rows j.id j (Table.get_key hj)).count
  · exact hinv.updates_iff hseen hsweep hheld write
  · exact notified_step hok hs (Table.get_key hj)

instance : DecidablePred Call.Plain
  | .claimCallbacks _ | .markNotified .. | .deferCallback .. | .releaseCallback _ => .isFalse not_false
  | .insert .. | .claim .. | .claimSelected .. | .renew .. | .release .. | .settle .. | .reclaim .. | .replay ..
  | .close .. | .markStarted .. => .isTrue trivial

instance (s : Sweeping) : DecidablePred s.DatedApart
  | .other _ => inferInstanceAs (Decidable (_ ∧ _))
  | .begin .. | .select .. | .claim _ | .lookUp .. | .finish .. | .record .. | .skip _ | .die _ =>
      .isTrue trivial

instance (s : Sweeping) : DecidablePred s.ClockForward
  | .select _ now => inferInstanceAs (Decidable (s.clock ≤ now))
  | .begin .. | .claim _ | .lookUp .. | .finish .. | .record .. | .skip _ | .die _ | .other _ => .isTrue trivial

/-- A job is dead-lettered and selected by one sweep. It is replayed and dead-letters again before the
compare-and-set, which counts the new dead letter. The callback takes longer than the lease, and another sweep
claims. -/
def Sweeping.overtaken : Sweeping :=
  runTo Sweeping.step (fun s a => s.DatedApart a ∧ s.ClockForward a) (Sweeping.init 0)
    [.other (sampleInsert 1), .other (sampleClaim "worker" 1 "a"),
      .other (.settle (.fail "boom" 60 3600 none) ⟨"job", "worker", 1⟩ { now := 2 }),
      .begin 0 ["mailer"] none 100, .select 0 3, .other (.replay "job" 3), .other (sampleClaim "worker" 4 "b"),
      .other (.settle (.fail "bang" 60 3600 none) ⟨"job", "worker", 1⟩ { now := 5 }), .claim 0, .lookUp 0 true,
      .begin 1 ["mailer"] none 100, .select 1 300000003, .claim 1, .lookUp 1 true]

/-- The sample is a run. -/
theorem reaches_overtaken :
    Reaches Sweeping.step (fun s a => s.DatedApart a ∧ s.ClockForward a) (Sweeping.init 0) Sweeping.overtaken :=
  reaches_runTo (by decide +kernel)

/-- What a sweep of the example has in hand: the first was handed the dead letter that was replayed. -/
theorem held_overtaken : ((heldOf (Sweeping.overtaken.sweeps 0)).map fun held => (held.1, held.2.letter))
      = some (0, ("job", some 2))
    ∧ ((heldOf (Sweeping.overtaken.sweeps 1)).map fun held => (held.1, held.2.letter))
      = some (1, ("job", some 5)) := by
  decide +kernel

/-- Both claims count for the new dead letter, and of the two outcomes only the second is written. -/
theorem dead_letter_deliveries_overtaken :
    (∃ j ∈ Sweeping.overtaken.db.jobs.rows, (live Sweeping.overtaken.claims j.id j.completedAt).length = 2)
      ∧ (∃ held ∈ heldOf (Sweeping.overtaken.sweeps 0), ∀ write,
        (updateDeadLetter Sweeping.overtaken.db held.2 write).1 = false)
      ∧ ∃ held ∈ heldOf (Sweeping.overtaken.sweeps 1), ∀ write,
        (updateDeadLetter Sweeping.overtaken.db held.2 write).1 = true := by
  obtain ⟨hcount, hwrites, -⟩ := dead_letter_deliveries (reaches_overtaken.mono fun _ _ hok => hok.1)
  obtain ⟨j, hget, hs, htwo, hcompleted, hnotified⟩ : ∃ j, Sweeping.overtaken.db.jobs.get "job" = some j
      ∧ j.status = .deadLetter ∧ j.deadLetterAttempts = 2 ∧ j.completedAt = some 5 ∧ j.deadLetterNotifiedAt
        = none := by
    have hrow : (Sweeping.overtaken.db.jobs.get "job").map (fun j =>
        (j.status, j.deadLetterAttempts, j.completedAt,
        j.deadLetterNotifiedAt)) = some (.deadLetter, 2, some 5, none) := by decide +kernel
    obtain ⟨j, hj, heq⟩ := Option.map_eq_some_iff.mp hrow
    simp only [Prod.mk.injEq] at heq
    exact ⟨j, hj, heq⟩
  have hid : j.id = "job" := Table.key_of_get hget
  have hnewest : (live Sweeping.overtaken.claims "job" (some 5)).getLast?.map CallbackClaim.number = some 1 := by
    decide +kernel
  obtain ⟨held, hheld, hfirst⟩ := Option.map_eq_some_iff.mp held_overtaken.1
  obtain ⟨held', hheld', hsecond⟩ := Option.map_eq_some_iff.mp held_overtaken.2
  simp only [DeadLetterJob.letter, Prod.mk.injEq] at hfirst hsecond
  refine ⟨⟨j, Table.mem_of_get hget, by have := hcount j (Table.mem_of_get hget) hs; omega⟩, ⟨held, hheld, ?_⟩,
    ⟨held', hheld', ?_⟩⟩
  · intro write
    obtain ⟨sweep, hsweep, hturn⟩ := mem_heldOf.mp hheld
    rw [← Bool.not_eq_true, hwrites 0 sweep hsweep held hturn write]
    rintro ⟨j', hj', -, hdeadAt, -⟩
    rw [hfirst.2.1, hget] at hj'
    obtain rfl := Option.some.inj hj'
    rw [hfirst.2.2, hcompleted] at hdeadAt
    cases hdeadAt
  · intro write
    obtain ⟨sweep, hsweep, hturn⟩ := mem_heldOf.mp hheld'
    obtain ⟨c, hlast, hc⟩ := Option.map_eq_some_iff.mp hnewest
    refine (hwrites 1 sweep hsweep held' hturn write).mpr ⟨j, ?_, hs, hcompleted.trans hsecond.2.2.symm,
      hnotified, c, ?_,
      hc.trans hsecond.1.symm⟩
    · rw [hsecond.2.1]
      exact hget
    · rw [hid, hcompleted]
      exact hlast

end Jasil.Jobs
