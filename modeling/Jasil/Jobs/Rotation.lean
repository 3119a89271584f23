import Mathlib.Data.Finset.Card
import Jasil.Jobs.Eligibility
import Jasil.Jobs.Routing

/-! # Rotating over the queues
A worker takes its batches in turn from one queue after the other: each claim starts after the queue of the
last job of the batch before.

* **`selectDueIds_eq`**: the two range scans select the first due jobs in the cyclic order of the queues.
* **`Rotating`**: a worker's batches, with other workers between the steps of its claims.
* **`rotation_fair`**: a queue waits for fewer batches than there are queues. -/

namespace Jasil.Jobs

/-! ## The cyclic order -/

/-- Where a queue comes in the order that starts after the cursor: the queues up to it come last. -/
def rotation (cursor : Option String) (queue : String) : Bool ×ₗ String :=
  toLex (cursor.any (queue ≤ ·), queue)

/-- The order of a claim: queue after queue from the cursor on, then oldest available first. -/
def rotationKey (cursor : Option String) (j : ProcessingJob) :
    Bool ×ₗ String ×ₗ Instant ×ₗ Instant ×ₗ JobId :=
  toLex (cursor.any (j.queue ≤ ·), scanKey j)

/-- The rows of a table differ in their keys. -/
theorem nodup_scanKey {rows : List ProcessingJob} (h : (rows.map ProcessingJob.id).Nodup) :
    (rows.map scanKey).Nodup := by
  refine List.Nodup.of_map (fun k => (ofLex (ofLex (ofLex k).2).2).2) ?_
  rw [List.map_map]
  exact h

/-- Different jobs have different places in the rotation. -/
theorem nodup_rotationKey {cursor : Option String} {rows : List ProcessingJob}
    (h : (rows.map ProcessingJob.id).Nodup) : (rows.map (rotationKey cursor)).Nodup := by
  refine List.Nodup.of_map (fun k => (ofLex k).2) ?_
  rw [List.map_map]
  exact nodup_scanKey h

/-- One range after the other is the cyclic order. -/
theorem sortBy_rotationKey (cursor : String) {rows : List ProcessingJob}
    (h : (rows.map ProcessingJob.id).Nodup) :
    sortBy scanKey (rows.filter fun j => cursor < j.queue)
        ++ sortBy scanKey (rows.filter fun j => j.queue ≤ cursor)
      = sortBy (rotationKey (some cursor)) rows := by
  have hperm : (sortBy scanKey (rows.filter fun j => cursor < j.queue)
      ++ sortBy scanKey (rows.filter fun j => j.queue ≤ cursor)).Perm rows := by
    refine ((sortBy_perm _ _).append (sortBy_perm _ _)).trans ?_
    have hcompl : (rows.filter fun j => j.queue ≤ cursor)
        = rows.filter fun j => !decide (cursor < j.queue) := by
      refine List.filter_congr fun j _ => ?_
      rw [← decide_not, decide_eq_decide]
      exact not_lt.symm
    rw [hcompl]
    exact List.filter_append_perm _ rows
  have hkeys := (hperm.map (rotationKey (some cursor))).nodup_iff.mpr (nodup_rotationKey h)
  refine eq_of_perm_of_sorted ?_ (pairwise_sortBy _ rows) hkeys (hperm.trans (sortBy_perm _ rows).symm)
  -- the first component of the key says on which side of the cursor a row is
  have hafter {j : ProcessingJob} (hj : j ∈ sortBy scanKey (rows.filter fun j => cursor < j.queue)) :
      rotationKey (some cursor) j = toLex (false, scanKey j) := by
    have hlt : cursor < j.queue := by simpa using (List.mem_filter.mp (mem_sortBy.mp hj)).2
    simp [rotationKey, hlt]
  have hupto {j : ProcessingJob} (hj : j ∈ sortBy scanKey (rows.filter fun j => j.queue ≤ cursor)) :
      rotationKey (some cursor) j = toLex (true, scanKey j) := by
    have hle : j.queue ≤ cursor := by simpa using (List.mem_filter.mp (mem_sortBy.mp hj)).2
    simp [rotationKey, hle]
  refine List.pairwise_append.mpr ⟨?_, ?_, fun a ha b hb => ?_⟩
  · refine (pairwise_sortBy scanKey _).imp_of_mem fun ha hb hle => ?_
    rw [hafter ha, hafter hb]
    exact Prod.Lex.toLex_le_toLex.mpr (.inr ⟨rfl, hle⟩)
  · refine (pairwise_sortBy scanKey _).imp_of_mem fun ha hb hle => ?_
    rw [hupto ha, hupto hb]
    exact Prod.Lex.toLex_le_toLex.mpr (.inr ⟨rfl, hle⟩)
  · rw [hafter ha, hupto hb]
    exact Prod.Lex.toLex_le_toLex.mpr (.inl Bool.false_lt_true)

/-- The rows a claim may select. -/
def selectable (db : Db) (filters : ProcessingJob → Prop) [DecidablePred filters] (locked : List JobId) :
    List ProcessingJob :=
  db.jobs.select fun j => filters j ∧ j.id ∉ locked

/-- A job is selectable once. -/
theorem nodup_selectable (db : Db) (filters : ProcessingJob → Prop) [DecidablePred filters]
    (locked : List JobId) : ((selectable db filters locked).map ProcessingJob.id).Nodup :=
  db.jobs.nodup.sublist (List.filter_sublist.map _)

/-- One range scan sorts the selectable rows of its range. -/
theorem scanRange_eq (db : Db) (filters : ProcessingJob → Prop) [DecidablePred filters]
    (bounds : ProcessingJob → Bool) (locked : List JobId) (remaining : ℕ) :
    scanRange db filters bounds locked remaining =
      ((sortBy scanKey ((selectable db filters locked).filter bounds)).take remaining).map
        ProcessingJob.id := by
  have hrows : (db.jobs.select fun j => filters j ∧ bounds j = true ∧ j.id ∉ locked)
      = (selectable db filters locked).filter bounds := by
    rw [selectable, Table.select, Table.select, List.filter_filter]
    refine List.filter_congr fun j _ => ?_
    cases bounds j <;> simp
  rw [scanRange, hrows]
  rfl

/-- **The range scans select the first due rows in the cyclic order.** -/
theorem selectDueIds_eq (db : Db) (filters : ProcessingJob → Prop) [DecidablePred filters]
    (cursor : Option String) (limit : ℕ) (locked : List JobId) :
    selectDueIds db filters cursor limit locked =
      ((sortBy (rotationKey cursor) (selectable db filters locked)).take limit).map
        ProcessingJob.id := by
  cases cursor with
  | none =>
    have hall : (selectable db filters locked).filter (fun _ => true) = selectable db filters locked :=
      List.filter_eq_self.mpr fun _ _ => rfl
    have hsort : sortBy (rotationKey none) (selectable db filters locked)
        = sortBy scanKey (selectable db filters locked) := by
      refine eq_of_perm_of_sorted ?_ (pairwise_sortBy _ _) ?_
        ((sortBy_perm _ _).trans (sortBy_perm _ _).symm)
      · refine (pairwise_sortBy (rotationKey none) _).imp fun {a b} hle => ?_
        rcases Prod.Lex.toLex_le_toLex.mp hle with hlt | ⟨-, hle⟩
        · exact absurd hlt (by simp)
        · exact hle
      · exact ((sortBy_perm _ _).map scanKey).nodup_iff.mpr
          (nodup_scanKey (nodup_selectable db filters locked))
    simp only [selectDueIds, scanRanges, List.foldl_cons, List.foldl_nil, List.nil_append,
      List.length_nil, Nat.sub_zero, scanRange_eq, hall, hsort]
  | some cursor =>
    simp only [selectDueIds, scanRanges, List.foldl_cons, List.foldl_nil, List.nil_append,
      List.length_nil, Nat.sub_zero, scanRange_eq]
    rw [← sortBy_rotationKey cursor (nodup_selectable db filters locked), List.take_append,
      List.map_append, List.length_map, List.length_take]
    congr 3
    omega

/-! ## A batch -/

/-- Where an id stands in a batch without repeats. -/
theorem batchPosition_eq {jobIds : List JobId} (h : jobIds.Nodup) {j : ProcessingJob} (hj : j.id ∈ jobIds) :
    batchPosition jobIds j = jobIds.idxOf j.id := by
  have hlt : jobIds.idxOf j.id < jobIds.length := List.idxOf_lt_length_iff.mpr hj
  have hrev : jobIds.length - 1 - jobIds.idxOf j.id < jobIds.reverse.length := by
    rw [List.length_reverse]
    omega
  have hget : jobIds.reverse[jobIds.length - 1 - jobIds.idxOf j.id] = j.id := by
    rw [List.getElem_reverse]
    have hidx : jobIds.length - 1 - (jobIds.length - 1 - jobIds.idxOf j.id) = jobIds.idxOf j.id := by
      omega
    simp only [hidx, List.getElem_idxOf]
  have hpos := (List.nodup_reverse.mpr h).idxOf_getElem _ hrev
  rw [hget] at hpos
  rw [batchPosition, hpos]
  omega

/-- **The read-back of a batch nobody interferes with** returns all of it, in its order. -/
theorem claimReadBack_claimUpdate {db : Db} {r : ClaimRequest} {jobIds : List JobId}
    (mint : JobId → AttemptId) (hnodup : jobIds.Nodup)
    (hpending : ∀ id ∈ jobIds, ∃ j, db.jobs.get id = some j ∧ j.status = .pending) :
    (claimReadBack (claimUpdate db r jobIds mint) r.workerId jobIds).map ProcessingJob.id = jobIds := by
  have hmem {id : JobId} (hid : id ∈ jobIds) :
      ∃ j ∈ claimReadBack (claimUpdate db r jobIds mint) r.workerId jobIds, j.id = id := by
    obtain ⟨j, hj, hstatus⟩ := hpending id hid
    obtain rfl := Table.key_of_get hj
    have hclaimed : (claimUpdate db r jobIds mint).jobs.get j.id = some (j.claim r) := by
      rw [get_claimUpdate, hj, Option.map_some, if_pos ⟨hid, hstatus⟩]
    exact ⟨j.claim r, mem_claimReadBack.mpr ⟨Table.mem_of_get hclaimed, hid, rfl, rfl⟩, rfl⟩
  have hperm : ((claimReadBack (claimUpdate db r jobIds mint) r.workerId jobIds).map
      ProcessingJob.id).Perm jobIds := by
    refine (List.perm_ext_iff_of_nodup (nodup_claimReadBack _ _ _) hnodup).mpr fun id => ?_
    constructor
    · intro hid
      obtain ⟨j, hj, rfl⟩ := List.mem_map.mp hid
      exact (mem_claimReadBack.mp hj).2.1
    · intro hid
      obtain ⟨j, hj, rfl⟩ := hmem hid
      exact List.mem_map_of_mem hj
  have hsorted : ((claimReadBack (claimUpdate db r jobIds mint) r.workerId jobIds).map
      ProcessingJob.id).Pairwise fun a b => jobIds.idxOf a ≤ jobIds.idxOf b := by
    refine List.pairwise_map.mpr ?_
    have hpos := pairwise_sortBy (batchPosition jobIds)
      ((claimUpdate db r jobIds mint).jobs.select (ClaimedBy jobIds r.workerId))
    refine hpos.imp_of_mem fun {a b} ha hb hle => ?_
    have ha := (Table.mem_select.mp (mem_sortBy.mp ha)).2.1
    have hb := (Table.mem_select.mp (mem_sortBy.mp hb)).2.1
    rwa [batchPosition_eq hnodup ha, batchPosition_eq hnodup hb] at hle
  -- the same jobs in the order of the batch, which is one list only
  refine eq_of_perm_of_sorted hsorted ?_ ?_ hperm
  · refine List.pairwise_iff_getElem.mpr fun i k hi hk hik => ?_
    rw [hnodup.idxOf_getElem, hnodup.idxOf_getElem]
    exact hik.le
  · refine List.Nodup.map_on (fun a ha b hb heq => ?_) (nodup_claimReadBack _ _ _)
    exact (List.idxOf_inj (hperm.mem_iff.mp ha)).mp heq

/-- **A batch is the first `limit` due jobs in the cyclic order**, which starts after the cursor. -/
theorem claimJobs_batch {db db' : Db} {r : ClaimRequest} {mint : JobId → AttemptId}
    {claimed : List ProcessingJob} {selected : Option (List String)}
    (hselected : normalizeQueueSelector r.queues = .ok selected)
    (h : claimJobs db r mint = .ok (claimed, db')) :
    claimed.map ProcessingJob.id =
      ((sortBy (rotationKey r.queueCursor) (db.jobs.select (r.Due selected))).take r.limit).map
        ProcessingJob.id := by
  have hids := selectDueIds_eq db (r.Due selected) r.queueCursor r.limit []
  have hrows : selectable db (r.Due selected) [] = db.jobs.select (r.Due selected) := by
    simp [selectable]
  rw [hrows] at hids
  have hnodup : (selectDueIds db (r.Due selected) r.queueCursor r.limit []).Nodup := by
    rw [hids]
    refine List.Nodup.sublist ((List.take_sublist _ _).map _) ?_
    exact ((sortBy_perm _ _).map _).nodup_iff.mpr (db.jobs.nodup.sublist (List.filter_sublist.map _))
  rw [claimJobs, hselected] at h
  cases hcursor : checkQueueCursor r.queueCursor with
  | error e => simp [hcursor, bind, Except.bind] at h
  | ok u =>
    simp only [hcursor, bind, Except.bind, pure, Except.pure] at h
    rw [← hids]
    split at h
    · rename_i hempty
      obtain ⟨rfl, rfl⟩ := Prod.mk.inj (Except.ok.inj h)
      rw [List.isEmpty_iff.mp hempty, List.map_nil]
    · obtain ⟨rfl, rfl⟩ := Prod.mk.inj (Except.ok.inj h)
      refine claimReadBack_claimUpdate mint hnodup fun id hid => ?_
      obtain ⟨-, j, hj, hdue⟩ := mem_selectDueIds hid
      exact ⟨j, hj, hdue.1⟩

/-! ## One batch after the other -/

/-- One worker's rotation among other workers' claims. -/
structure Rotating extends Claiming where
  /-- `_queue_cursor` of the worker. -/
  cursor : Option String
  /-- How many of its batches were not empty so far. -/
  batches : ℕ

namespace Rotating

/-- What the worker's read-back returns. -/
def batch (s : Rotating) (w : WorkerId) : List ProcessingJob :=
  match s.flying w with
  | some (_, .committed jobIds) => claimReadBack s.db w jobIds
  | _ => []

/-- The state after a step that left the claims as `claiming`: a batch that is not empty moves the cursor to
the queue of its last job. -/
def turn (w : WorkerId) (s : Rotating) (claiming : Claiming) : Claiming.Step → Rotating
  | .readBack w' =>
    if w' = w then
      match (s.batch w).getLast? with
      | some last =>
        { toClaiming := claiming, cursor := Worker.cursorFor last.queue, batches := s.batches + 1 }
      | none => { s with toClaiming := claiming }
    else { s with toClaiming := claiming }
  | _ => { s with toClaiming := claiming }

/-- Take one step. The worker's claims start from its cursor. -/
def step (w : WorkerId) (s : Rotating) (a : Claiming.Step) : Option Rotating :=
  match a with
  | .begin r mint =>
    if r.workerId = w ∧ r.queueCursor ≠ s.cursor then none
    else (s.toClaiming.step (.begin r mint)).map fun claiming => s.turn w claiming (.begin r mint)
  | a => (s.toClaiming.step a).map fun claiming => s.turn w claiming a

/-- The job waits in the queue. -/
def Waits (s : Rotating) (queue : String) (id : JobId) : Prop :=
  ∃ j, s.db.jobs.get id = some j ∧ j.status = .pending ∧ j.queue = queue

/-- **The queue is starved**: a job in it stays pending, due for the worker and locked by nobody, and none of
its jobs is in a batch. All due jobs are in the queues `names`. -/
def Starves (w : WorkerId) (queue : String) (id : JobId) (names : Finset String) (s : Rotating)
    (a : Claiming.Step) : Prop :=
  s.Waits queue id ∧
    match a with
    | .scan w' locked => w' = w → id ∉ locked ∧ ∀ flight ∈ s.flying w,
        (∀ j ∈ s.db.jobs.get id, flight.1.request.Due flight.1.selected j) ∧
          ∀ j ∈ s.db.jobs.rows, flight.1.request.Due flight.1.selected j → j.queue ∈ names
    | .readBack w' => w' = w → ∀ j ∈ s.batch w, j.queue ≠ queue
    | _ => True

end Rotating

/-! ## Getting closer to a queue -/

/-- How many of the queues come up to `queue` in the order that starts after the cursor. -/
def ahead (names : Finset String) (queue : String) (cursor : Option String) : ℕ :=
  (names.filter fun name => rotation cursor name ≤ rotation cursor queue).card

/-- The queue itself is ahead of the cursor. -/
theorem ahead_pos {names : Finset String} {queue : String} (hq : queue ∈ names) (cursor : Option String) :
    0 < ahead names queue cursor :=
  Finset.card_pos.mpr ⟨queue, Finset.mem_filter.mpr ⟨hq, le_rfl⟩⟩

/-- At most all queues are ahead. -/
theorem ahead_le (names : Finset String) (queue : String) (cursor : Option String) :
    ahead names queue cursor ≤ names.card := Finset.card_filter_le _ _

/-- The queue a new cursor names comes last in the order. -/
theorem rotation_lt_self {name queue : String} (h : queue ≠ name) :
    rotation (some name) queue < rotation (some name) name := by
  rw [rotation, rotation, Prod.Lex.toLex_lt_toLex]
  rcases lt_or_gt_of_ne h with hlt | hgt
  · exact .inr ⟨by simp [hlt.le], hlt⟩
  · exact .inl (by simp [not_le.mpr hgt])

/-- What comes before `queue` after `name` came before it already. -/
theorem rotation_mono {cursor : Option String} {name queue other : String}
    (hname : rotation cursor name < rotation cursor queue)
    (hother : rotation (some name) other ≤ rotation (some name) queue) :
    rotation cursor other ≤ rotation cursor queue := by
  unfold rotation at *
  rw [Prod.Lex.toLex_lt_toLex] at hname
  rw [Prod.Lex.toLex_le_toLex] at hother ⊢
  simp only [Option.any_some, Bool.lt_iff, decide_eq_false_iff_not, decide_eq_true_eq, not_le,
    decide_eq_decide] at hname hother ⊢
  cases cursor with
  | none =>
    simp only [Option.any_none, Bool.false_eq_true, and_false, true_and, false_or] at hname ⊢
    rcases hother with ⟨hlt, hle⟩ | ⟨hiff, hle⟩
    · exact absurd hname (not_lt.mpr hle)
    · exact hle
  | some cursor =>
    simp only [Option.any_some, decide_eq_false_iff_not, not_le, decide_eq_true_eq,
      decide_eq_decide] at hname ⊢
    grind

/-- **A cursor on a queue before `queue` is closer to it.** -/
theorem ahead_lt {names : Finset String} {cursor : Option String} {name queue : String}
    (hmem : name ∈ names) (hname : rotation cursor name < rotation cursor queue) :
    ahead names queue (some name) < ahead names queue cursor := by
  have hne : queue ≠ name := by
    rintro rfl
    exact lt_irrefl _ hname
  refine Finset.card_lt_card (Finset.ssubset_iff_subset_ne.mpr ⟨fun other hother => ?_, fun heq => ?_⟩)
  · obtain ⟨hin, hle⟩ := Finset.mem_filter.mp hother
    exact Finset.mem_filter.mpr ⟨hin, rotation_mono hname hle⟩
  · -- `name` itself comes last from now on
    have hin : name ∈ names.filter fun other => rotation cursor other ≤ rotation cursor queue :=
      Finset.mem_filter.mpr ⟨hmem, hname.le⟩
    rw [← heq] at hin
    exact absurd (rotation_lt_self hne) (not_lt.mpr (Finset.mem_filter.mp hin).2)

/-- What one range scan leaves out comes after all it selects, and then the batch is full. -/
theorem scanRange_full {db : Db} {filters : ProcessingJob → Prop} [DecidablePred filters]
    {bounds : ProcessingJob → Bool} {locked : List JobId} {remaining : ℕ} {j : ProcessingJob}
    (hj : db.jobs.get j.id = some j) (hdue : filters j) (hbounds : bounds j = true) (hlocked : j.id ∉ locked)
    (hout : j.id ∉ scanRange db filters bounds locked remaining) :
    (scanRange db filters bounds locked remaining).length = remaining
      ∧ ∀ id ∈ scanRange db filters bounds locked remaining, ∀ j' ∈ db.jobs.get id, j'.queue ≤ j.queue := by
  rw [scanRange_eq] at hout ⊢
  set rows := sortBy scanKey ((selectable db filters locked).filter bounds) with hrows
  have hmem : j ∈ rows := by
    rw [hrows, mem_sortBy, List.mem_filter]
    exact ⟨Table.mem_select.mpr ⟨Table.mem_of_get hj, hdue, hlocked⟩, hbounds⟩
  have hsplit := List.take_append_drop remaining rows
  have hdrop : j ∈ rows.drop remaining := by
    rw [← hsplit, List.mem_append] at hmem
    exact hmem.resolve_left fun htake => hout (List.mem_map_of_mem htake)
  -- a row that was left out lies behind a full batch
  have hlen : remaining < rows.length := by
    by_contra hle
    rw [List.drop_eq_nil_of_le (not_lt.mp hle)] at hdrop
    exact absurd hdrop List.not_mem_nil
  refine ⟨by rw [List.length_map, List.length_take, min_eq_left hlen.le], fun id hid j' hj' => ?_⟩
  obtain ⟨j'', htake, rfl⟩ := List.mem_map.mp hid
  have hrow : j'' ∈ db.jobs.rows := by
    have hin := List.mem_of_mem_take htake
    rw [hrows, mem_sortBy, List.mem_filter] at hin
    exact (Table.mem_select.mp hin.1).1
  obtain rfl := Option.some.inj ((Table.get_key hrow).symm.trans hj')
  have hsorted : rows.Pairwise fun a b => scanKey a ≤ scanKey b := pairwise_sortBy _ _
  rw [← hsplit, List.pairwise_append] at hsorted
  have hle := hsorted.2.2 _ htake _ hdrop
  rcases Prod.Lex.toLex_le_toLex.mp hle with hlt | ⟨heq, -⟩
  · exact hlt.le
  · exact heq.le

/-- What a range scan selects is due and in the range. -/
theorem bounds_of_mem_scanRange {db : Db} {filters : ProcessingJob → Prop} [DecidablePred filters]
    {bounds : ProcessingJob → Bool} {locked : List JobId} {remaining : ℕ} {id : JobId}
    (h : id ∈ scanRange db filters bounds locked remaining) :
    ∃ j, db.jobs.get id = some j ∧ filters j ∧ bounds j = true := by
  rw [scanRange_eq] at h
  obtain ⟨j, hj, rfl⟩ := List.mem_map.mp h
  obtain ⟨hsel, hbounds⟩ := List.mem_filter.mp (mem_sortBy.mp (List.mem_of_mem_take hj))
  obtain ⟨hrow, hdue, -⟩ := Table.mem_select.mp hsel
  exact ⟨j, Table.get_key hrow, hdue, hbounds⟩

namespace Rotating

section Starved

variable {w : WorkerId} {queue : String} {id : JobId} {names : Finset String} {s s' : Rotating}
  {a : Claiming.Step}

/-- The job is in a queue that comes up to the starved one. -/
def Before (db : Db) (cursor : Option String) (queue : String) (names : Finset String) (id : JobId) :
    Prop :=
  ∃ j, db.jobs.get id = some j ∧ j.queue ∈ names ∧ rotation cursor j.queue ≤ rotation cursor queue

/-- The ranges that the starved queue is still to be found in. -/
inductive Unscanned (cursor : Option String) (queue : String) : List (ProcessingJob → Bool) → Prop
  | all : Unscanned cursor queue (scanRanges cursor)
  | wrapped {name : String} : cursor = some name → queue ≤ name →
      Unscanned cursor queue [fun j => j.queue ≤ name]

/-- Where the worker's call stands while the queue is starved: it has selected the waiting job, or nothing
beyond the queue. -/
def OnTheWay (db : Db) (cursor : Option String) (queue : String) (id : JobId) (names : Finset String)
    (call : ClaimCall) : Phase → Prop
  | .scanning jobIds ranges =>
    id ∈ jobIds ∨ (∀ x ∈ jobIds, Before db cursor queue names x)
      ∧ (call.request.limit ≤ jobIds.length ∨ Unscanned cursor queue ranges)
  | .selected jobIds => id ∈ jobIds ∨ ∀ x ∈ jobIds, Before db cursor queue names x
  | .committed jobIds => (∃ j, db.jobs.get id = some j ∧ j.status ≠ .pending)
      ∨ ∀ x ∈ jobIds, Before db cursor queue names x

/-- What holds while the queue is starved, `start` batches in. -/
structure StarvedInv (w : WorkerId) (queue : String) (id : JobId) (names : Finset String) (start : ℕ)
    (s : Rotating) : Prop where
  progress : s.batches + ahead names queue s.cursor ≤ start + names.card
  call : ∀ call phase, s.flying w = some (call, phase) →
    call.request.queueCursor = s.cursor ∧ OnTheWay s.db s.cursor queue id names call phase

/-- A call leaves what is before the queue, or makes it less. -/
theorem Before.run {db : Db} {cursor : Option String} {x : JobId} (h : Before db cursor queue names x)
    (c : Call) : Before (c.run db) cursor queue names x := by
  obtain ⟨j, hj, hmem, hle⟩ := h
  obtain ⟨j', hj', hrow⟩ := run_get_some c hj
  exact ⟨j', hj', hrow.queue_eq.1.symm ▸ hmem, hrow.queue_eq.1.symm ▸ hle⟩

/-- What other workers do leaves the worker's call where it stands. -/
theorem OnTheWay.run {db : Db} {cursor : Option String} {call : ClaimCall} {phase : Phase}
    (h : OnTheWay db cursor queue id names call phase)
    (hwaits : ∃ j, db.jobs.get id = some j ∧ j.status = .pending ∧ j.queue = queue) (c : Call) :
    OnTheWay (c.run db) cursor queue id names call phase := by
  cases phase with
  | scanning jobIds ranges =>
    refine h.imp_right fun ⟨hbefore, hrest⟩ => ⟨fun x hx => (hbefore x hx).run c, hrest⟩
  | selected jobIds => exact h.imp_right fun hbefore x hx => (hbefore x hx).run c
  | committed jobIds =>
    rcases h with ⟨j, hj, hstatus⟩ | hbefore
    · obtain ⟨j', hj', hpending, -⟩ := hwaits
      obtain rfl := Option.some.inj (hj.symm.trans hj')
      exact absurd hpending hstatus
    · exact .inr fun x hx => (hbefore x hx).run c

/-- A step that is none of the worker's own keeps the invariant. -/
theorem StarvedInv.keep {start : ℕ} (h : StarvedInv w queue id names start s) (hwaits : s.Waits queue id)
    (hcursor : s'.cursor = s.cursor) (hbatches : s'.batches = s.batches)
    (hflying : ∀ flight, s'.flying w = some flight → s.flying w = some flight)
    (hdb : s'.db = s.db ∨ ∃ c : Call, s'.db = c.run s.db) : StarvedInv w queue id names start s' := by
  refine ⟨by rw [hcursor, hbatches]; exact h.progress, fun call phase hf => ?_⟩
  obtain ⟨hcall, hway⟩ := h.call call phase (hflying _ hf)
  rw [hcursor]
  refine ⟨hcall, ?_⟩
  rcases hdb with hdb | ⟨c, hdb⟩
  · rw [hdb]
    exact hway
  · rw [hdb]
    exact hway.run hwaits c

/-- The worker's call goes on. -/
theorem StarvedInv.enter {start : ℕ} (h : StarvedInv w queue id names start s) {t : Claiming}
    {call : ClaimCall} {phase : Phase} (hcall : call.request.queueCursor = s.cursor)
    (hway : OnTheWay t.db s.cursor queue id names call phase) :
    StarvedInv w queue id names start { s with toClaiming := t.enter w call phase } := by
  refine ⟨h.progress, fun call' phase' hf => ?_⟩
  have hf : (t.enter w call phase).flying w = some (call', phase') := hf
  rw [Claiming.flying_enter] at hf
  obtain ⟨rfl, rfl⟩ := Prod.mk.inj (Option.some.inj hf)
  exact ⟨hcall, hway⟩

/-- **One range scan** finds the waiting job, or only jobs of queues up to the starved one. -/
theorem onTheWay_scan {db : Db} {cursor : Option String} {call : ClaimCall} {jobIds : List JobId}
    {bounds : ProcessingJob → Bool} {ranges : List (ProcessingJob → Bool)} {locked : List JobId}
    (hcursor : call.request.queueCursor = cursor)
    (h : OnTheWay db cursor queue id names call (.scanning jobIds (bounds :: ranges)))
    (hwaits : ∃ j, db.jobs.get id = some j ∧ j.status = .pending ∧ j.queue = queue)
    (hlocked : id ∉ locked) (hdue : ∀ j ∈ db.jobs.get id, call.request.Due call.selected j)
    (hnames : ∀ j ∈ db.jobs.rows, call.request.Due call.selected j → j.queue ∈ names)
    (hroom : call.request.limit - jobIds.length ≠ 0) :
    OnTheWay db cursor queue id names call (.scanning (jobIds ++ scanRange db
      (call.request.Due call.selected) bounds locked (call.request.limit - jobIds.length)) ranges) := by
  obtain ⟨j, hj, -, rfl⟩ := hwaits
  obtain rfl := Table.key_of_get hj
  rcases h with hin | ⟨hbefore, hfull | hunscanned⟩
  · exact .inl (List.mem_append_left _ hin)
  · exact absurd (Nat.sub_eq_zero_of_le hfull) hroom
  by_cases hfound : j.id ∈ scanRange db (call.request.Due call.selected) bounds locked
      (call.request.limit - jobIds.length)
  · exact .inl (List.mem_append_right _ hfound)
  -- where the range holds the starved queue, the batch is full before the waiting job
  have hstop (hbounds : bounds j = true) :=
    scanRange_full hj (hdue j hj) hbounds hlocked hfound
  have hnew (hrot : ∀ j', bounds j' = true → (bounds j = true → j'.queue ≤ j.queue) →
      rotation cursor j'.queue ≤ rotation cursor j.queue) :
      ∀ x ∈ jobIds ++ scanRange db (call.request.Due call.selected) bounds locked
        (call.request.limit - jobIds.length), Before db cursor j.queue names x := by
    refine List.forall_mem_append.mpr ⟨hbefore, fun x hx => ?_⟩
    obtain ⟨j', hj', hdue', hbounds'⟩ := bounds_of_mem_scanRange hx
    refine ⟨j', hj', hnames j' (Table.mem_of_get hj') hdue', hrot j' hbounds' fun hbounds => ?_⟩
    exact (hstop hbounds).2 x hx j' hj'
  have hlimit (hbounds : bounds j = true) : call.request.limit ≤ (jobIds ++ scanRange db
      (call.request.Due call.selected) bounds locked (call.request.limit - jobIds.length)).length := by
    rw [List.length_append, (hstop hbounds).1]
    omega
  refine .inr ?_
  generalize hall : bounds :: ranges = all at hunscanned
  cases hunscanned with
  | all =>
    cases cursor with
    | none =>
      obtain ⟨rfl, rfl⟩ := List.cons.inj hall
      refine ⟨hnew fun j' _ hle => ?_, .inl (hlimit rfl)⟩
      exact Prod.Lex.toLex_le_toLex.mpr (.inr ⟨rfl, hle rfl⟩)
    | some name =>
      obtain ⟨rfl, rfl⟩ := List.cons.inj hall
      by_cases hwrap : j.queue ≤ name
      · refine ⟨hnew fun j' hlt _ => ?_, .inr (.wrapped rfl hwrap)⟩
        have hlt : name < j'.queue := of_decide_eq_true hlt
        exact Prod.Lex.toLex_le_toLex.mpr (.inl (by simp [hwrap, not_le.mpr hlt]))
      · have hbounds : decide (name < j.queue) = true := decide_eq_true (not_le.mp hwrap)
        refine ⟨hnew fun j' hlt hle => ?_, .inl (hlimit hbounds)⟩
        have hlt : name < j'.queue := of_decide_eq_true hlt
        exact Prod.Lex.toLex_le_toLex.mpr (.inr ⟨by simp [hwrap, not_le.mpr hlt], hle hbounds⟩)
  | @wrapped name hcur hwrap =>
    obtain ⟨rfl, rfl⟩ := List.cons.inj hall
    have hbounds : decide (j.queue ≤ name) = true := decide_eq_true hwrap
    refine ⟨hnew fun j' hle' hle => ?_, .inl (hlimit hbounds)⟩
    have hle' : j'.queue ≤ name := of_decide_eq_true hle'
    rw [hcur]
    exact Prod.Lex.toLex_le_toLex.mpr (.inr ⟨by simp [hwrap, hle'], hle hbounds⟩)

/-- **A batch brings the cursor closer to the starved queue.** -/
theorem cursor_batch {cursor : Option String} {rows : List ProcessingJob} {last : ProcessingJob}
    (hvalid : ∀ name ∈ names, validateQueueName name = .ok name)
    (hlast : rows.getLast? = some last) (hbefore : ∀ j ∈ rows, j.queue ∈ names
      ∧ rotation cursor j.queue ≤ rotation cursor queue) (hnone : ∀ j ∈ rows, j.queue ≠ queue) :
    ahead names queue (Worker.cursorFor last.queue) < ahead names queue cursor := by
  have hmem := List.mem_of_getLast? hlast
  obtain ⟨hin, hle⟩ := hbefore last hmem
  have hcursor : Worker.cursorFor last.queue = some last.queue := by
    rw [Worker.cursorFor, hvalid _ hin]
    rfl
  rw [hcursor]
  refine ahead_lt hin (lt_of_le_of_ne hle fun heq => hnone last hmem ?_)
  exact (Prod.mk.inj (toLex.injective heq)).2

/-- **Every step of a starving run keeps the invariant.** -/
theorem starvedInv_step {start : ℕ} (hvalid : ∀ name ∈ names, validateQueueName name = .ok name)
    (h : StarvedInv w queue id names start s) (hok : s.Starves w queue id names a)
    (hs : s.step w a = some s') : StarvedInv w queue id names start s' := by
  obtain ⟨hwaits, hok⟩ := hok
  have hkeep {t : Claiming} (hflying : ∀ flight, t.flying w = some flight → s.flying w = some flight)
      (hdb : t.db = s.db ∨ ∃ c : Call, t.db = c.run s.db) :
      StarvedInv w queue id names start { s with toClaiming := t } :=
    h.keep hwaits rfl rfl hflying hdb
  -- another worker's call
  have hother {w' : WorkerId} (hw : w' ≠ w) (flight : Option (ClaimCall × Phase)) :
      Function.update s.flying w' flight w = s.flying w := by
    rw [Function.update_of_ne hw.symm]
  cases a with
  | begin r mint =>
    rw [step] at hs
    split at hs
    · cases hs
    rename_i hcursor
    obtain ⟨t, ht, rfl⟩ := Option.map_eq_some_iff.mp hs
    rw [Claiming.step] at ht
    split at ht
    · cases ht
    split at ht
    · obtain rfl := Option.some.inj ht
      -- a call of `w` starts with the cursor it read; any other leaves its flight alone
      by_cases hw : r.workerId = w
      · subst hw
        have hcur : r.queueCursor = s.cursor := by simpa using hcursor
        refine ⟨h.progress, fun call phase hf => ?_⟩
        simp only [turn, Function.update_self, Option.some.injEq, Prod.mk.injEq] at hf
        obtain ⟨rfl, rfl⟩ := hf
        refine ⟨hcur, .inr ⟨fun _ hx => absurd hx List.not_mem_nil, .inr ?_⟩⟩
        exact hcur ▸ .all
      · exact hkeep (fun flight hf => (hother hw _).symm.trans hf) (.inl rfl)
    · obtain rfl := Option.some.inj ht
      exact hkeep (fun flight hf => hf) (.inl rfl)
  | scan w' locked =>
    obtain ⟨t, ht, rfl⟩ := Option.map_eq_some_iff.mp hs
    rw [Claiming.step] at ht
    by_cases hw : w' = w
    · subst hw
      obtain ⟨hlocked, hcalls⟩ := hok rfl
      split at ht
      · rename_i call jobIds hf
        obtain ⟨hcall, hway⟩ := h.call _ _ hf
        obtain rfl := Option.some.inj ht
        exact h.enter hcall (hway.imp_right fun hbefore => hbefore.1)
      · rename_i call jobIds bounds ranges hf
        obtain ⟨hcall, hway⟩ := h.call _ _ hf
        obtain ⟨hdue, hnames⟩ := hcalls _ hf
        dsimp only at ht
        split at ht
        · obtain rfl := Option.some.inj ht
          exact h.enter hcall (hway.imp_right fun hbefore => hbefore.1)
        · rename_i hroom
          obtain rfl := Option.some.inj ht
          -- the scan that has room takes the waiting job, or jobs of queues before it
          exact h.enter hcall (onTheWay_scan hcall hway hwaits hlocked hdue hnames hroom)
      · cases ht
    · have hfly (call : ClaimCall) (phase : Phase) :
          StarvedInv w queue id names start { s with toClaiming := s.enter w' call phase } :=
        hkeep (fun flight hf => (hother hw _).symm.trans hf) (.inl rfl)
      split at ht
      · obtain rfl := Option.some.inj ht
        exact hfly _ _
      · dsimp only at ht
        split at ht
        · obtain rfl := Option.some.inj ht
          exact hfly _ _
        · obtain rfl := Option.some.inj ht
          exact hfly _ _
      · cases ht
  | update w' =>
    obtain ⟨t, ht, rfl⟩ := Option.map_eq_some_iff.mp hs
    rw [Claiming.step] at ht
    split at ht
    · rename_i call jobIds hf
      split at ht
      · obtain rfl := Option.some.inj ht
        refine hkeep (fun flight hf => ?_) (.inl rfl)
        by_cases hw : w' = w
        · subst hw
          simp [Claiming.leave] at hf
        · exact (hother hw _).symm.trans hf
      · obtain rfl := Option.some.inj ht
        by_cases hw : w' = w
        · subst hw
          obtain ⟨hcall, hway⟩ := h.call _ _ hf
          refine h.enter hcall ?_
          rcases hway with hin | hbefore
          · -- the waiting job is taken
            obtain ⟨j, hj, hpending, -⟩ := hwaits
            refine .inl ⟨j.claim call.request, ?_, by rintro ⟨⟩⟩
            have hid := Table.key_of_get hj
            show (claimUpdate s.db call.request jobIds call.mint).jobs.get id = _
            rw [get_claimUpdate, hj, Option.map_some, if_pos ⟨hid.symm ▸ hin, hpending⟩]
          · exact .inr fun x hx =>
              (hbefore x hx).run (.claimSelected call.request jobIds call.mint)
        · exact hkeep (fun flight hf => (hother hw _).symm.trans hf)
            (.inr ⟨.claimSelected call.request jobIds call.mint, rfl⟩)
    · cases ht
  | readBack w' =>
    obtain ⟨t, ht, rfl⟩ := Option.map_eq_some_iff.mp hs
    rw [Claiming.step] at ht
    split at ht
    · rename_i call jobIds hf
      obtain rfl := Option.some.inj ht
      by_cases hw : w' = w
      · subst hw
        obtain ⟨hcall, hway⟩ := h.call _ _ hf
        have hnone : ∀ flight, (s.leave w').flying w' ≠ some flight := by
          simp [Claiming.leave]
        have hbatch : s.batch w' = claimReadBack s.db w' jobIds := by rw [batch, hf]
        have hbefore : ∀ j ∈ s.batch w', j.queue ∈ names
            ∧ rotation s.cursor j.queue ≤ rotation s.cursor queue := by
          intro j hj
          rw [hbatch] at hj
          obtain ⟨hrow, hin, -⟩ := mem_claimReadBack.mp hj
          rcases hway with ⟨j', hj', hstatus⟩ | hall
          · obtain ⟨j'', hj'', hpending, -⟩ := hwaits
            -- it would not be waiting any more
            obtain rfl := Option.some.inj (hj'.symm.trans hj'')
            exact absurd hpending hstatus
          · obtain ⟨j', hj', hmem⟩ := hall j.id hin
            obtain rfl := Option.some.inj ((Table.get_key hrow).symm.trans hj')
            exact hmem
        rw [turn, if_pos rfl]
        cases hlast : (s.batch w').getLast? with
        | none => exact ⟨h.progress, fun call' phase' hf' => absurd hf' (hnone _)⟩
        | some last =>
          refine ⟨?_, fun call' phase' hf' => absurd hf' (hnone _)⟩
          -- the batch ends at a queue before the one that starves, so that one fewer lies ahead
          have hless := cursor_batch hvalid hlast hbefore (hok rfl)
          have hprogress := h.progress
          dsimp only
          omega
      · rw [turn, if_neg hw]
        exact hkeep (fun flight hf => (hother hw _).symm.trans hf) (.inl rfl)
    · cases ht
  | abort w' =>
    obtain ⟨t, ht, rfl⟩ := Option.map_eq_some_iff.mp hs
    rw [Claiming.step] at ht
    split at ht
    · obtain rfl := Option.some.inj ht
      refine hkeep (fun flight hf => ?_) (.inl rfl)
      by_cases hw : w' = w
      · subst hw
        simp [Claiming.leave] at hf
      · exact (hother hw _).symm.trans hf
    · cases ht
  | other c =>
    obtain rfl := Option.some.inj hs
    exact hkeep (fun flight hf => hf) (.inr ⟨c, rfl⟩)

end Starved

end Rotating

/-- It holds before the first batch. -/
theorem Rotating.starvedInv_init {w : WorkerId} {queue : String} {id : JobId} {names : Finset String}
    {s : Rotating} (hidle : s.flying w = none) : Rotating.StarvedInv w queue id names s.batches s := by
  refine ⟨Nat.add_le_add_left (ahead_le names queue s.cursor) _, fun call phase hf => ?_⟩
  exact nomatch hidle.symm.trans hf

/-- A claimed job is in the queue it was in before. -/
theorem queue_of_claimed {db db' : Db} {r : ClaimRequest} {mint : JobId → AttemptId}
    {claimed : List ProcessingJob} (h : claimJobs db r mint = .ok (claimed, db')) {j : ProcessingJob}
    (hj : j ∈ claimed) : ∃ j₀ ∈ db.jobs.rows, j₀.queue = j.queue := by
  rcases claimJobs_ok h with ⟨-, rfl⟩ | ⟨selected, jobIds, rfl, rfl, -⟩
  · exact absurd hj List.not_mem_nil
  · have hrow := Table.get_key (mem_claimReadBack.mp hj).1
    rcases run_get (.claimSelected r jobIds mint) hrow with ⟨-, hnew⟩ | ⟨j₀, hj₀, hstep⟩
    · exact nomatch hnew
    · exact ⟨j₀, Table.mem_of_get hj₀, hstep.queue_eq.1.symm⟩

/-- What `run_once` holds is its batch, and the next one starts after its last job's queue. -/
theorem Worker.batch_of_hold {w w' : Worker} {cfg : RunnerConfig} {r : Readings}
    {now : Instant} {snapshots : List ClaimedJob} {selected : Option (List String)}
    (hclaim : w.runner = .claim now)
    (hstep : w.runnerStep cfg r = some w') (hhold : w'.runner = .hold snapshots)
    (hselected : normalizeQueueSelector cfg.queues = .ok selected) :
    snapshots.map ClaimedJob.id =
        ((sortBy (rotationKey w.queueCursor)
          (w.db.jobs.select ((w.claimRequest cfg { r with now := now }).Due selected))).take
            cfg.batchSize).map ProcessingJob.id
      ∧ ∃ last, snapshots.getLast? = some last ∧ w'.queueCursor = Worker.cursorFor last.queue
        ∧ ∃ j ∈ w.db.jobs.rows, j.queue = last.queue := by
  rw [Worker.runnerStep, hclaim] at hstep
  dsimp only at hstep
  split at hstep
  · obtain rfl := Option.some.inj hstep
    cases hhold
  · split at hstep
    · obtain rfl := Option.some.inj hstep
      cases hhold
    · rename_i claimed db hclaimed
      have hbatch := claimJobs_batch (r := w.claimRequest cfg { r with now := now }) hselected hclaimed
      split at hstep
      · obtain rfl := Option.some.inj hstep
        cases hhold
      · rename_i last hlast
        obtain rfl := Option.some.inj hstep
        obtain rfl := RunnerPc.hold.inj hhold
        refine ⟨?_, last.snapshot, ?_, rfl, ?_⟩
        · rw [List.map_map]
          exact hbatch
        · rw [List.getLast?_map, hlast, Option.map_some]
        · exact queue_of_claimed hclaimed (List.mem_of_getLast? hlast)

/-- **Rotation cannot starve a queue.** Each batch of `run_once` is the first `limit` due jobs in the cyclic
order of the queues that starts after its cursor, and with valid queue names the cursor is the queue the batch
before ended on. While a job of a queue stays due for a worker and no other worker takes it, the worker has a
job of the queue in a batch before it has made as many batches, empty ones apart, as there are queues with due
jobs, whatever the other queues hold and whatever others do between the steps of its claims. -/
theorem rotation_fair :
    (∀ (w w' : Worker) cfg r now snapshots selected, w.runner = .claim now →
        w.runnerStep cfg r = some w' → w'.runner = .hold snapshots →
        normalizeQueueSelector cfg.queues = .ok selected →
        (∀ j ∈ w.db.jobs.rows, validateQueueName j.queue = .ok j.queue) →
          snapshots.map ClaimedJob.id =
              ((sortBy (rotationKey w.queueCursor)
                (w.db.jobs.select ((w.claimRequest cfg { r with now := now }).Due selected))).take
                  cfg.batchSize).map ProcessingJob.id
            ∧ ∃ last, snapshots.getLast? = some last ∧ w'.queueCursor = some last.queue)
      ∧ ∀ w queue id (names : Finset String) (s₀ s : Rotating), s₀.flying w = none →
        (∀ name ∈ names, validateQueueName name = .ok name) → queue ∈ names →
        Reaches (Rotating.step w) (Rotating.Starves w queue id names) s₀ s →
          s.batches < s₀.batches + names.card := by
  refine ⟨fun w w' cfg r now snapshots selected hclaim hstep hhold hselected hvalid => ?_, ?_⟩
  · obtain ⟨hbatch, last, hlast, hcursor, j, hj, hqueue⟩ :=
      Worker.batch_of_hold hclaim hstep hhold hselected
    refine ⟨hbatch, last, hlast, ?_⟩
    rw [hcursor, Worker.cursorFor, ← hqueue, hvalid j hj]
    rfl
  · intro w queue id names s₀ s hidle hvalid hqueue h
    have hinv : Rotating.StarvedInv w queue id names s₀.batches s :=
      h.invariant _ (Rotating.starvedInv_init hidle) fun _ hinv hok hstep =>
        Rotating.starvedInv_step hvalid hinv hok hstep
    have hpos := ahead_pos hqueue s.cursor
    have hprogress := hinv.progress
    omega

instance Rotating.decidableWaits (s : Rotating) (queue : String) (id : JobId) : Decidable (s.Waits queue id) :=
  inferInstanceAs (Decidable (∃ j ∈ s.db.jobs.get id, j.status = .pending ∧ j.queue = queue))

instance Rotating.decidableStarves (w : WorkerId) (queue : String) (id : JobId) (names : Finset String)
    (s : Rotating) : (a : Claiming.Step) → Decidable (s.Starves w queue id names a)
  | .scan _ _ => inferInstanceAs (Decidable (s.Waits queue id ∧ (_ → _ ∧ ∀ flight ∈ s.flying w, _ ∧ _)))
  | .readBack _ => inferInstanceAs (Decidable (s.Waits queue id ∧ (_ → ∀ j ∈ s.batch w, _)))
  | .begin _ _ | .update _ | .abort _ | .other _ => inferInstanceAs (Decidable (s.Waits queue id ∧ True))

/-- Three jobs of `alpha`, two of `beta` and one of `gamma`. -/
def backlogCalls : List Call :=
  [.insert sampleEvent "a" "alpha" 3 0 none "a1", .insert sampleEvent "b" "alpha" 3 0 none "a2",
    .insert sampleEvent "c" "alpha" 3 0 none "a3", .insert sampleEvent "d" "beta" 3 0 none "b1",
    .insert sampleEvent "e" "beta" 3 0 none "b2", .insert sampleEvent "f" "gamma" 3 0 none "c1"]

/-- The backlog, before any claim. -/
def Rotating.backlog : Rotating where
  toClaiming := backlogCalls.foldl (fun s c => s.make none c) Claiming.init
  cursor := none
  batches := 0

/-- A whole claim. -/
def Rotating.sampleBatch (w : WorkerId) (limit : ℕ) (cursor : Option String) (scans : ℕ) :
    List Claiming.Step :=
  [Claiming.Step.begin
    { workerId := w, limit := limit, leaseSeconds := 60, now := 1, queueCursor := cursor } fun id => w ++ id] ++
    List.replicate scans (Claiming.Step.scan w []) ++ [Claiming.Step.update w, Claiming.Step.readBack w]

/-- Two batches of one worker; in between `alpha` grows, and another worker takes a job of it. -/
def Rotating.starvingSteps : List Claiming.Step :=
  sampleBatch "w1" 2 none 2 ++ [Claiming.Step.other (.insert sampleEvent "g" "alpha" 3 0 none "a4")] ++
    sampleBatch "w2" 1 none 2 ++ sampleBatch "w1" 2 (some "alpha") 2

/-- The state after that. -/
def Rotating.starving : Rotating :=
  runTo (step "w1") (Starves "w1" "gamma" "c1" {"alpha", "beta", "gamma"}) backlog starvingSteps

/-- A worker of the backlog that is about to claim; its batch before ended in `alpha`. -/
def Worker.turned : Worker :=
  { Worker.init Rotating.backlog.db 0 with queueCursor := some "alpha", runner := .claim 1 }

/-- What is about to be held. -/
def RunnerPc.claimed : RunnerPc → Option (List ClaimedJob)
  | .hold snapshots => some snapshots
  | _ => none

/-- Only before `hold` there are claimed jobs. -/
theorem RunnerPc.eq_hold {pc : RunnerPc} {snapshots : List ClaimedJob} (h : pc.claimed = some snapshots) :
    pc = .hold snapshots := by
  cases pc with
  | hold snapshots =>
    cases h
    rfl
  | _ => cases h

/-- A batch of four goes round the queues, from after `alpha` to its first job; and two batches pass before
`gamma` has its turn, which is as many as may pass. -/
theorem rotation_fair_backlog :
    (∃ w', Worker.turned.runnerStep { mailConfig with queues := none, batchSize := 4 } {} = some w'
      ∧ w'.runner.claimed.map (·.map ClaimedJob.id) = some ["b1", "b2", "c1", "a1"]
      ∧ w'.queueCursor = some "alpha")
    ∧ Rotating.starving.batches = 2 ∧ Rotating.starving.batches < Rotating.backlog.batches + 3 := by
  constructor
  · have hids : (Worker.turned.runnerStep { mailConfig with queues := none, batchSize := 4 } {}).bind
        (fun w' => w'.runner.claimed.map (·.map fun job => (job.id, job.queue)))
          = some [("b1", "beta"), ("b2", "beta"), ("c1", "gamma"), ("a1", "alpha")] := by decide +kernel
    obtain ⟨w', hstep, hclaimed⟩ := Option.bind_eq_some_iff.mp hids
    obtain ⟨snapshots, hhold, hsnapshots⟩ := Option.map_eq_some_iff.mp hclaimed
    obtain ⟨-, last, hlast, hcursor⟩ := rotation_fair.1 _ w' _ {} 1 snapshots none rfl hstep
      (RunnerPc.eq_hold hhold) rfl (by decide +kernel)
    refine ⟨w', hstep, ?_, ?_⟩
    · have hmap := congrArg (List.map Prod.fst) hsnapshots
      rw [List.map_map] at hmap
      rw [hhold, Option.map_some]
      exact congrArg some hmap
    · have hqueues := congrArg (fun l => l.getLast?.map Prod.snd) hsnapshots
      rw [List.getLast?_map, hlast] at hqueues
      rw [hcursor]
      exact hqueues
  · obtain ⟨hr, hbatches⟩ := @reaches_runTo_of_map _ _ _ (Rotating.step "w1")
      (Rotating.Starves "w1" "gamma" "c1" {"alpha", "beta", "gamma"}) _ Rotating.backlog
      Rotating.starvingSteps Rotating.batches 2 (by decide +kernel)
    exact ⟨hbatches, rotation_fair.2 "w1" "gamma" "c1" {"alpha", "beta", "gamma"} _ _ rfl (by decide +kernel)
      (by decide +kernel) hr⟩

end Jasil.Jobs
