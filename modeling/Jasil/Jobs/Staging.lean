import Jasil.Jobs.Payloads
import Jasil.Transition.Trace

/-! # One event for each id
`add_to_outbox` in the transactions of its callers: a row that is inserted is seen by nobody else until it is
committed, and an insert of the same event id waits for it. A call that finds a row compares the event with
what the column reads back.

* **`Staging`**: the committed rows, and those of the transactions that are open; a row holds the payload that
  was written.
* **`idempotent_iff`**: a run keeps one row for each id, and each call tells events apart exactly when the
  column reads a retried payload back as it was, and no Boolean is taken for a number. -/

namespace Jasil

namespace Jobs

/-! ## One call -/

/-- The insert: a row of the same event id that the transaction sees makes it do nothing. -/
def insertIgnoringConflict (committed own : List EventOutbox) (row : EventOutbox) : List EventOutbox :=
  if (committed ++ own).any (·.eventId = row.eventId) then own else own ++ [row]

section Column

variable (column : JsonColumn)

/-- `add_to_outbox` in a transaction: the id it returns or the error, and the rows of the transaction. -/
def addInTransaction (committed own : List EventOutbox) (event : Event) (now : Instant) (outboxId : OutboxId) :
    Except StagingError (Option OutboxId) × List EventOutbox :=
  let own := insertIgnoringConflict committed own (newOutboxRow event now outboxId)
  match (committed ++ own).find? (·.eventId = event.eventId) with
  | some stored =>
    if stored.id ≠ outboxId then
      match checkSameEvent { event with payload := jsonRoundTrip event.payload } (column.row stored) with
      | .error e => (.error e, own)
      | .ok () => (.ok none, own)
    else (.ok (some outboxId), own)
  -- the row is there, whoever inserted it
  | none => (.ok none, own)

end Column

/-! ## Transactions -/

/-- The committed rows, and those of the transactions that are open. -/
structure Staging where
  outbox : List EventOutbox
  txs : ℕ → List EventOutbox

/-- What can happen next. -/
inductive StagingStep
  | add (p : ℕ) (event : Event) (now : Instant) (outboxId : OutboxId) (commit : Bool)
  | commit (p : ℕ)
  | rollback (p : ℕ)

namespace Staging

/-- No row, and no open transaction. -/
def init : Staging := ⟨[], fun _ => []⟩

/-- The rows of a transaction are replaced. -/
def put (s : Staging) (p : ℕ) (own : List EventOutbox) : Staging := ⟨s.outbox, Function.update s.txs p own⟩

/-- A transaction ends, and its rows are there. -/
def commit (s : Staging) (p : ℕ) : Staging := ⟨s.outbox ++ s.txs p, Function.update s.txs p []⟩

/-- Take one step. A call that raises does not commit. -/
def step (column : JsonColumn) (s : Staging) : StagingStep → Staging
  | .add p event now outboxId commits =>
    let (result, own) := addInTransaction column s.outbox (s.txs p) event now outboxId
    match result with
    | .ok _ => if commits then (s.put p own).commit p else s.put p own
    | .error _ => s.put p own
  | .commit p => s.commit p
  | .rollback p => s.put p []

/-- The state after some steps. -/
def after (column : JsonColumn) (steps : List StagingStep) : Staging := steps.foldl (step column) init

/-- What a transaction sees. -/
def visible (s : Staging) (p : ℕ) : List EventOutbox := s.outbox ++ s.txs p

section Rows

variable (s : Staging) (p : ℕ) (own : List EventOutbox)

/-- A transaction has what is put there. -/
@[simp] theorem txs_put_self : (s.put p own).txs p = own := Function.update_self ..

/-- It sees what is committed and its own. -/
@[simp] theorem visible_put_self : (s.put p own).visible p = s.outbox ++ own := by
  rw [visible, txs_put_self]
  rfl

/-- After a commit a transaction is empty. -/
@[simp] theorem txs_commit_self : (s.commit p).txs p = [] := Function.update_self ..

/-- A commit leaves what its transaction sees. -/
@[simp] theorem visible_commit_self : (s.commit p).visible p = s.visible p := by
  rw [visible, txs_commit_self, List.append_nil]
  rfl

variable {p} {q : ℕ}

/-- Another transaction has what it had. -/
@[simp] theorem txs_put_of_ne (h : q ≠ p) : (s.put p own).txs q = s.txs q := Function.update_of_ne h ..

/-- Another transaction sees what it saw. -/
@[simp] theorem visible_put_of_ne (h : q ≠ p) : (s.put p own).visible q = s.visible q := by
  rw [visible, txs_put_of_ne s own h]
  rfl

/-- A commit leaves what others have staged. -/
@[simp] theorem txs_commit_of_ne (h : q ≠ p) : (s.commit p).txs q = s.txs q := Function.update_of_ne h ..

/-- Others see what was committed. -/
@[simp] theorem visible_commit_of_ne (h : q ≠ p) : (s.commit p).visible q = s.visible p ++ s.txs q := by
  rw [visible, txs_commit_of_ne s h]
  rfl

end Rows

/-- **What a step can be**: an insert waits while another open transaction has a row of its event id; an id
that is minted is new; and payloads are JSON with finite numbers. -/
def Possible (s : Staging) : StagingStep → Prop
  | .add p event _ outboxId _ =>
    (∀ q ≠ p, ∀ row ∈ s.txs q, row.eventId ≠ event.eventId) ∧ (∀ row ∈ s.visible p, row.id ≠ outboxId) ∧
      (Json.obj event.payload).WellFormed
  | _ => True

/-- The event differs from the one that was stored in its type, or in its payload as JSON. -/
def Differs (strict : Bool) (event : Event) (stored : EventOutbox) : Prop :=
  stored.eventType ≠ event.eventType ∨ Json.same strict (.obj stored.payload) (.obj event.payload) = false

/-- **Staging is idempotent** at a step: no event id has two committed rows, and what was committed stays; a
call returns its id exactly when it inserts its row; and a call for an event id that is there inserts nothing,
and raises exactly when the event differs. -/
structure Idempotent (column : JsonColumn) (strict : Bool) (s : Staging) (e : StagingStep) : Prop where
  unique : ((s.step column e).outbox.map EventOutbox.eventId).Nodup
  kept : s.outbox <+: (s.step column e).outbox
  call : ∀ p event now outboxId commits, e = .add p event now outboxId commits →
    ((addInTransaction column s.outbox (s.txs p) event now outboxId).1 = .ok (some outboxId)
      ↔ (addInTransaction column s.outbox (s.txs p) event now outboxId).2
        = s.txs p ++ [newOutboxRow event now outboxId]) ∧
    ∀ stored ∈ s.visible p, stored.eventId = event.eventId →
      (addInTransaction column s.outbox (s.txs p) event now outboxId).2 = s.txs p ∧
        ((∃ error, (addInTransaction column s.outbox (s.txs p) event now outboxId).1 = .error error)
          ↔ Differs strict event stored)

/-- **The condition on a call** that finds a row: where Python takes its payload for what is read back of the
stored one, or it is the stored one as JSON, the column reads the stored payload back as it was, and no place
of the payloads is of two kinds. -/
def Plain (column : JsonColumn) (strict : Bool) (s : Staging) : StagingStep → Prop
  | .add p event _ _ _ =>
      ∀ stored ∈ s.visible p, stored.eventId = event.eventId → stored.eventType = event.eventType →
      (Json.eq (.obj (column.readBack stored.payload)) (.obj event.payload) = true
          ∨ Json.same strict (.obj stored.payload) (.obj event.payload) = true) →
        Json.eq (.obj (column.readBack stored.payload)) (.obj stored.payload) = true
          ∧ Json.kindred strict (.obj stored.payload) (.obj event.payload) = true
  | _ => True

/-! ## What a call does -/

section Call

variable {column : JsonColumn} {committed own : List EventOutbox} {event : Event} {now : Instant}
  {outboxId : OutboxId}

/-- **A new event id**: the row is inserted. -/
theorem add_of_new (hnew : ∀ row ∈ committed ++ own, row.eventId ≠ event.eventId) :
    addInTransaction column committed own event now outboxId
      = (.ok (some outboxId), own ++ [newOutboxRow event now outboxId]) := by
  have hany : ¬ (committed ++ own).any (·.eventId = (newOutboxRow event now outboxId).eventId) = true := by
    rw [List.any_eq_true]
    rintro ⟨row, hrow, heq⟩
    exact hnew row hrow (of_decide_eq_true heq)
  have hfind : (committed ++ (own ++ [newOutboxRow event now outboxId])).find? (·.eventId = event.eventId)
      = some (newOutboxRow event now outboxId) := by
    rw [← List.append_assoc, List.find?_append, List.find?_eq_none.mpr]
    · rw [Option.none_or]
      exact List.find?_cons_of_pos (decide_eq_true rfl)
    · intro row hrow
      rw [decide_eq_true_iff]
      exact hnew row hrow
  rw [addInTransaction, insertIgnoringConflict, if_neg hany, hfind]
  exact if_neg fun hne => hne rfl

/-- **An event id that is there**: nothing is inserted, and the events are compared. -/
theorem add_of_stored (hunique : ((committed ++ own).map EventOutbox.eventId).Nodup) {stored : EventOutbox}
    (hstored : stored ∈ committed ++ own) (heq : stored.eventId = event.eventId)
    (hfresh : stored.id ≠ outboxId) :
    addInTransaction column committed own event now outboxId
      = ((checkSameEvent { event with payload := jsonRoundTrip event.payload } (column.row stored)).map
        fun _ => none,
        own) := by
  have hany : (committed ++ own).any (·.eventId = (newOutboxRow event now outboxId).eventId) = true :=
    List.any_eq_true.mpr ⟨stored, hstored, decide_eq_true heq⟩
  have hfind : (committed ++ own).find? (·.eventId = event.eventId) = some stored := by
    cases hfound : (committed ++ own).find? (·.eventId = event.eventId) with
    | none => exact absurd (decide_eq_true heq) (List.find?_eq_none.mp hfound stored hstored)
    | some found =>
      have hid := @List.find?_some _ (fun row : EventOutbox => decide (row.eventId = event.eventId)) _ _ hfound
      have hsame : found.eventId = stored.eventId := (of_decide_eq_true hid).trans heq.symm
      rw [List.inj_on_of_nodup_map hunique (List.mem_of_find?_eq_some hfound) hstored hsame]
  rw [addInTransaction, insertIgnoringConflict, if_pos hany, hfind]
  dsimp only
  rw [if_pos hfresh]
  cases checkSameEvent { event with payload := jsonRoundTrip event.payload } (column.row stored) with
  | error e => rfl
  | ok _ => rfl

/-- **A retry**: Python takes the payload for the stored one exactly when it is the same as JSON, where the
column reads the stored one back as it was and no place is of two kinds. -/
theorem retry_iff {strict : Bool} {read sent payload : JsonObject} (hread : (Json.obj read).WellFormed)
    (hsent : (Json.obj sent).WellFormed) (hpayload : (Json.obj payload).WellFormed) :
    (Json.eq (.obj read) (.obj payload) = true ↔ Json.same strict (.obj sent) (.obj payload) = true)
      ↔ (Json.eq (.obj read) (.obj payload) = true ∨ Json.same strict (.obj sent) (.obj payload) = true →
          Json.eq (.obj read) (.obj sent) = true ∧ Json.kindred strict (.obj sent) (.obj payload) = true) := by
  rw [Json.same_eq, Bool.and_eq_true]
  constructor
  · intro hiff hor
    have hequal : Json.eq (.obj read) (.obj payload) = true := hor.elim id hiff.mpr
    obtain ⟨hsame, hkindred⟩ := hiff.mp hequal
    exact ⟨Json.eq_trans _ _ _ hequal (Json.eq_symm _ _ hsent hpayload hsame), hkindred⟩
  · intro hcondition
    constructor
    · intro hequal
      obtain ⟨hkept, hkindred⟩ := hcondition (Or.inl hequal)
      exact ⟨Json.eq_trans _ _ _ (Json.eq_symm _ _ hread hsent hkept) hequal, hkindred⟩
    · intro hsame
      exact Json.eq_trans _ _ _ (hcondition (Or.inr hsame)).1 hsame.1

/-- **What is raised**: the events differ in their types, or in their payloads as Python compares them. -/
theorem checkSameEvent_error_iff {stored : EventOutbox} :
    (∃ error, checkSameEvent event stored = .error error)
      ↔ stored.eventType ≠ event.eventType ∨ Json.eq (.obj stored.payload) (.obj event.payload) = false := by
  unfold checkSameEvent
  by_cases htype : stored.eventType = event.eventType
  · rw [if_neg (not_not.mpr htype), or_iff_right (not_not.mpr htype)]
    cases Json.eq (.obj stored.payload) (.obj event.payload) with
    | true => exact iff_of_false (by rintro ⟨_, ⟨⟩⟩) Bool.noConfusion
    | false => exact iff_of_true ⟨_, rfl⟩ rfl
  · rw [if_pos htype]
    exact iff_of_true ⟨_, rfl⟩ (Or.inl htype)

end Call

/-! ## Runs -/

/-- **One row for each event id**: among what a transaction sees, and between the transactions that are open.
Its payload is JSON. -/
structure Inv (s : Staging) : Prop where
  own : ∀ p, ((s.visible p).map EventOutbox.eventId).Nodup
  apart : ∀ p q, p ≠ q → ∀ row ∈ s.txs p, ∀ row' ∈ s.txs q, row.eventId ≠ row'.eventId
  json : ∀ p, ∀ row ∈ s.visible p, (Json.obj row.payload).WellFormed

section Run

variable {column : JsonColumn} {s : Staging} {e : StagingStep} {strict : Bool}

/-- There is no row at first. -/
theorem Inv.init : Inv init := ⟨fun _ => List.nodup_nil, by rintro _ _ _ _ ⟨⟩, by rintro _ _ ⟨⟩⟩

/-- The rows of a transaction are dropped. -/
theorem Inv.rollback (h : Inv s) (p : ℕ) : Inv (s.put p []) where
  json q row hrow := by
    by_cases hq : q = p
    · rw [hq, visible_put_self, List.append_nil] at hrow
      exact h.json p row (List.mem_append_left _ hrow)
    · rw [visible_put_of_ne s [] hq] at hrow
      exact h.json q row hrow
  own q := by
    by_cases hq : q = p
    · rw [hq, visible_put_self, List.append_nil]
      exact (h.own p).sublist ((List.sublist_append_left _ _).map _)
    · rw [visible_put_of_ne s [] hq]
      exact h.own q
  apart q q' hne row hrow row' hrow' := by
    by_cases hq : q = p
    · rw [hq, txs_put_self] at hrow
      cases hrow
    by_cases hq' : q' = p
    · rw [hq', txs_put_self] at hrow'
      cases hrow'
    rw [txs_put_of_ne s [] hq] at hrow
    rw [txs_put_of_ne s [] hq'] at hrow'
    exact h.apart q q' hne row hrow row' hrow'

/-- The rows of a transaction are seen by all. -/
theorem Inv.commit (h : Inv s) (p : ℕ) : Inv (s.commit p) where
  json q row hrow := by
    by_cases hq : q = p
    · rw [hq, visible_commit_self] at hrow
      exact h.json p row hrow
    · rw [visible_commit_of_ne s hq, List.mem_append] at hrow
      exact hrow.elim (h.json p row) fun hown => h.json q row (List.mem_append_right _ hown)
  own q := by
    by_cases hq : q = p
    · rw [hq, visible_commit_self]
      exact h.own p
    · have hown := h.own q
      rw [visible, List.map_append, List.nodup_append] at hown
      rw [visible_commit_of_ne s hq, List.map_append, List.nodup_append]
      refine ⟨h.own p, hown.2.1, ?_⟩
      -- the rows that are committed now are of no other transaction's event ids
      intro id hid id' hid'
      rw [visible, List.map_append, List.mem_append] at hid
      rcases hid with hid | hid
      · exact hown.2.2 id hid id' hid'
      · obtain ⟨row, hrow, rfl⟩ := List.mem_map.mp hid
        obtain ⟨row', hrow', rfl⟩ := List.mem_map.mp hid'
        exact h.apart p q (Ne.symm hq) row hrow row' hrow'
  apart := (h.rollback p).apart

/-- A row of a new event id is inserted. -/
theorem Inv.insert (h : Inv s) {p : ℕ} {row : EventOutbox}
    (hnew : ∀ row' ∈ s.visible p, row'.eventId ≠ row.eventId)
    (hfree : ∀ q ≠ p, ∀ row' ∈ s.txs q, row'.eventId ≠ row.eventId) (hjson : (Json.obj row.payload).WellFormed) :
    Inv (s.put p (s.txs p ++ [row])) where
  json q row' hrow := by
    by_cases hq : q = p
    · rw [hq, visible_put_self, ← List.append_assoc, List.mem_append, List.mem_singleton] at hrow
      rcases hrow with hrow | rfl
      · exact h.json p row' hrow
      · exact hjson
    · rw [visible_put_of_ne s _ hq] at hrow
      exact h.json q row' hrow
  own q := by
    by_cases hq : q = p
    · rw [hq, visible_put_self, ← List.append_assoc, List.map_append, List.nodup_append]
      refine ⟨h.own p, List.nodup_singleton _, ?_⟩
      rintro id hid id' hid'
      obtain ⟨row', hrow', rfl⟩ := List.mem_map.mp hid
      rw [List.map_singleton, List.mem_singleton] at hid'
      rw [hid']
      exact hnew row' hrow'
    · rw [visible_put_of_ne s _ hq]
      exact h.own q
  apart q q' hne r hr r' hr' := by
    by_cases hq : q = p
    · -- the new row is in the one list, and no other transaction has its event id
      have hq' : q' ≠ p := fun h => hne (hq.trans h.symm)
      rw [hq, txs_put_self, List.mem_append, List.mem_singleton] at hr
      rw [txs_put_of_ne s _ hq'] at hr'
      rcases hr with hr | rfl
      · exact h.apart p q' (Ne.symm hq') r hr r' hr'
      · exact (hfree q' hq' r' hr').symm
    · rw [txs_put_of_ne s _ hq] at hr
      by_cases hq' : q' = p
      · rw [hq', txs_put_self, List.mem_append, List.mem_singleton] at hr'
        rcases hr' with hr' | rfl
        · exact h.apart q p hq r hr r' hr'
        · exact hfree q hq r hr
      · rw [txs_put_of_ne s _ hq'] at hr'
        exact h.apart q q' hne r hr r' hr'

/-- What a call returns and leaves, when the step is possible. -/
theorem add_cases (h : Inv s) {p : ℕ} {event : Event} {now : Instant} {outboxId : OutboxId} {commits : Bool}
    (hpossible : s.Possible (.add p event now outboxId commits)) :
    ((∀ row ∈ s.visible p, row.eventId ≠ event.eventId) ∧
        addInTransaction column s.outbox (s.txs p) event now outboxId
          = (.ok (some outboxId), s.txs p ++ [newOutboxRow event now outboxId])) ∨
      ∃ stored ∈ s.visible p, stored.eventId = event.eventId ∧
        addInTransaction column s.outbox (s.txs p) event now outboxId
          = ((checkSameEvent event (column.row stored)).map fun _ => none, s.txs p) := by
  obtain ⟨-, hfresh, hwf⟩ := hpossible
  by_cases hnew : ∀ row ∈ s.visible p, row.eventId ≠ event.eventId
  · exact Or.inl ⟨hnew, add_of_new hnew⟩
  · push Not at hnew
    obtain ⟨stored, hstored, heq⟩ := hnew
    refine Or.inr ⟨stored, hstored, heq, ?_⟩
    rw [add_of_stored (h.own p) hstored heq (hfresh stored hstored), jsonRoundTrip_eq hwf]

/-- Putting what is there changes nothing. -/
@[simp] theorem put_txs_self (s : Staging) (p : ℕ) : s.put p (s.txs p) = s := by
  rw [put, Function.update_eq_self]

/-- **A step keeps the invariant**, and what is committed. -/
theorem step_inv (h : Inv s) (hpossible : s.Possible e) :
    Inv (s.step column e) ∧ s.outbox <+: (s.step column e).outbox := by
  cases e with
  | add p event now outboxId commits =>
    have hcommit {s' : Staging} (h : Inv s') (hkept : s'.outbox = s.outbox) :
        Inv (if commits then s'.commit p else s')
          ∧ s.outbox <+: (if commits then s'.commit p else s').outbox := by
      split
      · exact ⟨h.commit p, hkept ▸ List.prefix_append _ _⟩
      · exact ⟨h, hkept ▸ List.prefix_rfl⟩
    unfold step
    dsimp only
    rcases add_cases h hpossible with ⟨hnew, hadd⟩ | ⟨stored, -, -, hadd⟩
    · rw [hadd]
      exact hcommit (h.insert hnew hpossible.1 hpossible.2.2) rfl
    · rw [hadd]
      cases checkSameEvent event (column.row stored) with
      | error error =>
        rw [put_txs_self]
        exact ⟨h, List.prefix_rfl⟩
      | ok _ =>
        rw [put_txs_self]
        exact hcommit h rfl
  | commit p => exact ⟨h.commit p, List.prefix_append _ _⟩
  | rollback p => exact ⟨h.rollback p, List.prefix_rfl⟩

/-- **One step** is idempotent exactly when a payload that Python takes for the stored one is of the same
kinds. -/
theorem idempotent_iff_plain (h : Inv s) (hpossible : s.Possible e) : Idempotent column strict s e
    ↔ Plain column strict s e := by
  obtain ⟨hinv, hkept⟩ := step_inv h hpossible
  have hunique : ((s.step column e).outbox.map EventOutbox.eventId).Nodup :=
    (hinv.own 0).sublist ((List.sublist_append_left _ _).map _)
  cases e with
  | add p event now outboxId commits =>
    rcases add_cases h hpossible with ⟨hnew, hadd⟩ | ⟨stored, hstored, heq, hadd⟩
    · -- there is nothing to compare the event with
      refine iff_of_true ⟨hunique, hkept, ?_⟩ fun stored hstored heq => absurd heq (hnew stored hstored)
      rintro _ _ _ _ _ ⟨⟩
      rw [hadd]
      exact ⟨iff_of_true rfl rfl, fun stored hstored heq => absurd heq (hnew stored hstored)⟩
    · have hone : ∀ stored' ∈ s.visible p, stored'.eventId = event.eventId → stored' = stored :=
        fun stored' hstored' heq' => List.inj_on_of_nodup_map (h.own p) hstored' hstored (heq'.trans heq.symm)
      have hraised : (∃ error, ((checkSameEvent event (column.row stored)).map fun _ => (none : Option OutboxId))
          = .error error) ↔ ∃ error, checkSameEvent event (column.row stored) = .error error := by
        cases checkSameEvent event (column.row stored) with
        | error error => exact iff_of_true ⟨_, rfl⟩ ⟨_, rfl⟩
        | ok _ => exact iff_of_false (by rintro ⟨_, ⟨⟩⟩) (by rintro ⟨_, ⟨⟩⟩)
      have hplain : Plain column strict s (.add p event now outboxId commits)
          ↔ ((∃ error, checkSameEvent event (column.row stored) = .error error)
            ↔ Differs strict event stored) := by
        rw [checkSameEvent_error_iff, Differs]
        by_cases htype : stored.eventType = event.eventType
        · have hagree := @retry_iff strict _ _ _ (column.wellFormed _ (h.json p stored hstored))
            (h.json p stored hstored) hpossible.2.2
          show _ ↔ (stored.eventType ≠ event.eventType ∨ _ ↔ _)
          rw [or_iff_right (not_not.mpr htype), or_iff_right (not_not.mpr htype), ← Bool.not_eq_true,
            ← Bool.not_eq_true, not_iff_not]
          refine Iff.trans ⟨fun hplain => hplain stored hstored heq htype, ?_⟩ hagree.symm
          rintro hcondition stored' hstored' heq' -
          rw [hone stored' hstored' heq']
          exact hcondition
        · refine iff_of_true (fun stored' hstored' heq' htype' => ?_) (iff_of_true (Or.inl htype) (Or.inl htype))
          rw [hone stored' hstored' heq'] at htype'
          exact absurd htype' htype
      rw [hplain]
      constructor
      · intro hidempotent
        have hcall := ((hidempotent.call p event now outboxId commits rfl).2 stored hstored heq).2
        rw [hadd] at hcall
        exact hraised.symm.trans hcall
      · intro hiff
        refine ⟨hunique, hkept, ?_⟩
        rintro _ _ _ _ _ ⟨⟩
        rw [hadd]
        refine ⟨iff_of_false ?_ ?_, fun stored' hstored' heq' => ⟨rfl, ?_⟩⟩
        · cases checkSameEvent event (column.row stored) with
          | error error => rintro ⟨⟩
          | ok _ => rintro ⟨⟩
        · intro happend
          exact List.cons_ne_nil _ _ (List.self_eq_append_right.mp happend)
        · rw [hone stored' hstored' heq']
          exact hraised.trans hiff
  | commit p => exact iff_of_true ⟨hunique, hkept, by rintro _ _ _ _ _ ⟨⟩⟩ trivial
  | rollback p => exact iff_of_true ⟨hunique, hkept, by rintro _ _ _ _ _ ⟨⟩⟩ trivial

/-- It holds after any steps that are possible. -/
theorem inv_after {steps : List StagingStep}
    (h : EachAfter (fun past e => (after column past).Possible e) steps) :
    Inv (after column steps) := by
  induction steps using List.reverseRecOn with
  | nil => exact Inv.init
  | append_singleton steps e ih =>
    obtain ⟨hbefore, hlast⟩ := eachAfter_concat.mp h
    rw [after, List.foldl_append]
    exact (step_inv (ih hbefore) hlast).1

/-- **Staging is idempotent** throughout a run of interleaved transactions exactly when, at every call, the
column reads a retried payload back as it was, and no payload has a Boolean where the stored one, equal to it
in Python, has a number. -/
theorem idempotent_iff (column : JsonColumn) (strict : Bool) {steps : List StagingStep}
    (h : EachAfter (fun past e => (after column past).Possible e) steps) :
    EachAfter (fun past e => Idempotent column strict (after column past) e) steps
      ↔ EachAfter (fun past e => Plain column strict (after column past) e) steps := by
  induction steps using List.reverseRecOn with
  | nil => exact iff_of_true eachAfter_nil eachAfter_nil
  | append_singleton steps e ih =>
    obtain ⟨hbefore, hlast⟩ := eachAfter_concat.mp h
    rw [eachAfter_concat, eachAfter_concat, ih hbefore]
    exact and_congr_right fun _ => idempotent_iff_plain (inv_after hbefore) hlast

end Run

/-- An event with a payload of one field. -/
def flagged (value : Json) : Event where
  eventId := "e"
  eventType := "t"
  source := "s"
  timestamp := "2026-01-01T00:00:00+00:00"
  payload := [("flag", value)]

/-- An event is staged, and then one of the same id. -/
def stagedTwice (value value' : Json) : List StagingStep :=
  [.add 0 (flagged value) 0 "first" true, .add 1 (flagged value') 1 "second" true]

/-- The row of the first event. -/
theorem after_first (column : JsonColumn) (value : Json) :
    after column [.add 0 (flagged value) 0 "first" true]
      = ⟨[newOutboxRow (flagged value) 0 "first"], fun _ => []⟩ := by
  rw [after, List.foldl_cons, List.foldl_nil, step]
  rw [add_of_new (by rintro _ ⟨⟩)]
  show Staging.commit _ _ = _
  rw [commit, txs_put_self]
  refine congrArg (Staging.mk _) ?_
  funext q
  by_cases hq : q = 0
  · rw [hq, Function.update_self]
  · rw [Function.update_of_ne hq, txs_put_of_ne _ _ hq]
    rfl

/-- Both calls are possible. -/
theorem possible_stagedTwice (column : JsonColumn) {value value' : Json}
    (h : (Json.obj (flagged value).payload).WellFormed) (h' : (Json.obj (flagged value').payload).WellFormed) :
    EachAfter (fun past e => (after column past).Possible e) (stagedTwice value value') := by
  refine eachAfter_concat.mpr ⟨eachAfter_concat.mpr ⟨eachAfter_nil, ?_⟩, ?_⟩
  · exact ⟨by rintro _ _ _ ⟨⟩, by rintro _ ⟨⟩, h⟩
  · show (after column [.add 0 (flagged value) 0 "first" true]).Possible
      (.add 1 (flagged value') 1 "second" true)
    rw [after_first]
    refine ⟨by rintro _ _ _ ⟨⟩, ?_, h'⟩
    intro row hrow
    rw [List.mem_singleton.mp hrow]
    exact (by decide : ("first" : String) ≠ "second")

/-- A payload of one field is JSON. -/
theorem wellFormed_flagged {value : Json} (h : value.WellFormed) :
    (Json.obj (flagged value).payload).WellFormed := by
  unfold flagged
  simp only [Json.WellFormed, Json.FieldsWellFormed, List.map_cons, List.map_nil]
  exact ⟨⟨h, trivial⟩, List.nodup_singleton _⟩

/-- A retry with the same payload is told apart from nothing. -/
theorem idempotent_iff_retry : EachAfter (fun past e => Idempotent textColumn true (after textColumn past) e)
    (stagedTwice (.bool true) (.bool true)) := by
  have hwf : (Json.bool true).WellFormed := by simp [Json.WellFormed]
  have hpossible := possible_stagedTwice textColumn (wellFormed_flagged hwf) (wellFormed_flagged hwf)
  refine (idempotent_iff textColumn true hpossible).mpr ?_
  refine eachAfter_concat.mpr ⟨eachAfter_concat.mpr ⟨eachAfter_nil, by rintro _ ⟨⟩⟩, ?_⟩
  show Plain textColumn true (after textColumn [.add 0 (flagged (.bool true)) 0 "first" true]) _
  rw [after_first]
  intro stored hstored _ _ _
  rw [List.mem_singleton.mp hstored]
  show Json.eq (.obj (jsonRoundTrip (flagged (.bool true)).payload)) _ = true ∧ _
  rw [jsonRoundTrip_eq (wellFormed_flagged hwf)]
  decide +kernel

/-- `true` is taken for 1, so that the second event is dropped. -/
theorem not_idempotent : ¬ ∃ strict, ∀ steps,
    EachAfter (fun past e => (after textColumn past).Possible e) steps →
    EachAfter (fun past e => Idempotent textColumn strict (after textColumn past) e) steps := by
  rintro ⟨strict, h⟩
  have hwf : (Json.bool true).WellFormed := by simp [Json.WellFormed]
  have hwf' : (Json.int 1).WellFormed := by simp [Json.WellFormed]
  have hpossible : EachAfter (fun past e => (after textColumn past).Possible e)
      ([.add 0 (flagged (.bool true)) 0 "first" true] ++ [.add 1 (flagged (.int 1)) 1 "second" true]) :=
    possible_stagedTwice textColumn (wellFormed_flagged hwf) (wellFormed_flagged hwf')
  have hlast := (eachAfter_concat.mp hpossible).2
  have hidempotent := h _ hpossible [_] _ [] rfl
  have hplain := (idempotent_iff_plain (inv_after (eachAfter_concat.mp hpossible).1) hlast).mp hidempotent
  change Plain textColumn strict (after textColumn [.add 0 (flagged (.bool true)) 0 "first" true]) _ at hplain
  rw [after_first] at hplain
  have hcondition := hplain (newOutboxRow (flagged (.bool true)) 0 "first") List.mem_cons_self rfl rfl
  change Json.eq (.obj (jsonRoundTrip (flagged (.bool true)).payload)) (.obj (flagged (.int 1)).payload)
    = true ∨ _ →
    _ ∧ Json.kindred strict (.obj (flagged (.bool true)).payload) (.obj (flagged (.int 1)).payload)
      = true at hcondition
  rw [jsonRoundTrip_eq (wellFormed_flagged hwf)] at hcondition
  have hfalse := (hcondition (Or.inl (by decide +kernel))).2
  revert hfalse
  cases strict
  · decide
  · decide

end Staging

end Jobs

end Jasil
