import Mathlib.Algebra.Order.Group.Multiset
import Mathlib.Logic.Relation
import Jasil.Transition.Trace

/-! # Custody of leased work
A holder leases items in batches and handles those of a batch one at a time. Until an item's turn the
holder keeps its lease renewed, or gives it back; giving back takes two moments, one at which the
item is no longer held and is *owed*, and a later one at which it is released. Meanwhile a renewal may
find any lease lost.

* **`Custody`**: what is held, what is owed, whose turn it is, and a record of what happened;
* **`Custody.Step`**: what may happen next, in whatever order the holder's threads bring it about;
* **`Custody.Inv`**: at any moment a lease is in one place at most, and what was started is in none
  that can be given back.

A lease is named by its batch besides its item, so an item leased again later is another lease. -/

namespace Jasil

variable {ι ν : Type*}

/-- One lease: its batch, its item, and the number it was granted under. -/
abbrev Lease (ι ν : Type*) := ℕ × ι × ν

/-- Which lease it is: the batch and the item. -/
def Lease.key (lease : Lease ι ν) : ℕ × ι := (lease.1, lease.2.1)

/-- The leases of a batch. -/
def leasesOf (batch : ℕ) (items : List (ι × ν)) : List (Lease ι ν) := items.map (Prod.mk batch)

/-- What happened to a batch. -/
inductive BatchEvent (ι ν : Type*)
  | claimed (batch : ℕ) (items : List (ι × ν))
  /-- A renewal that succeeded, and the items it named. -/
  | renewed (batch : ℕ) (ids : List ι)
  | started (batch : ℕ) (id : ι)
  | ended (batch : ℕ) (id : ι)
  | released (batch : ℕ) (items : List (ι × ν))
  deriving DecidableEq

namespace BatchEvent

/-- The batch it happened to. -/
def batch : BatchEvent ι ν → ℕ
  | claimed batch _ | renewed batch _ | started batch _ | ended batch _ | released batch _ => batch

/-- A turn starts or ends. -/
def isTurn : BatchEvent ι ν → Bool
  | started _ _ | ended _ _ => true
  | _ => false

/-- The leases given back. -/
def releases : BatchEvent ι ν → List (Lease ι ν)
  | released batch items => leasesOf batch items
  | _ => []

end BatchEvent

open BatchEvent

/-- The leases given back so far. -/
def releasedIn (log : List (BatchEvent ι ν)) : List (Lease ι ν) := log.flatMap releases

/-- **A renewal named the item after the last turn**: at that moment every item started had ended,
and no turn has started or ended since. -/
def Confirmed (log : List (BatchEvent ι ν)) (batch : ℕ) (id : ι) : Prop :=
  ∃ before ids since, log = before ++ renewed batch ids :: since ∧ id ∈ ids ∧
    (∀ other, started batch other ∈ before → ended batch other ∈ before) ∧
    ∀ e ∈ since, e.isTurn = false

/-- **What an event of the record finds before it.** -/
def BatchEvent.Follows (past : List (BatchEvent ι ν)) : BatchEvent ι ν → Prop
  | started batch id =>
    started batch id ∉ past ∧ (∀ items, released batch items ∈ past → id ∉ items.map Prod.fst) ∧
      ∃ items, claimed batch items ∈ past ∧ id ∈ items.map Prod.fst ∧
        ((items.map Prod.fst).head? = some id ∨ Confirmed past batch id)
  | released batch items =>
    ((leasesOf batch items).map Lease.key).Nodup ∧
      ∀ item ∈ items, started batch item.1 ∉ past ∧
        (batch, item.1) ∉ (releasedIn past).map Lease.key ∧
        ∃ claims, claimed batch claims ∈ past ∧ item ∈ claims
  | _ => True

/-! ## The machine -/

/-- Where the holder stands in its batch. -/
inductive Stage (ι : Type*)
  /-- Before the turn of the first item. -/
  | fresh
  /-- Between two turns, or between two batches. -/
  | between
  | turn (id : ι)

/-- The items that one worker has leased, and what has become of them. -/
structure Custody (ι ν : Type*) where
  /-- The number of the present batch. -/
  batch : ℕ
  /-- What was claimed with it, in order. -/
  items : List (ι × ν)
  held : List (ι × ν)
  stage : Stage ι
  /-- No longer held, not yet released. -/
  owed : Multiset (Lease ι ν)
  log : List (BatchEvent ι ν)

/-- Nothing was ever claimed. -/
def Custody.init : Custody ι ν := ⟨0, [], [], .between, 0, []⟩

/-- One more event. -/
def Custody.record (c : Custody ι ν) (e : BatchEvent ι ν) : Custody ι ν :=
  { c with log := c.log ++ [e] }

/-- What may happen next. -/
inductive Custody.Step : Custody ι ν → Custody ι ν → Prop
  | claim {c : Custody ι ν} {items : List (ι × ν)} :
      c.stage = .between → c.held = [] → (items.map Prod.fst).Nodup →
        Step c { c with
          batch := c.batch + 1
          items := items
          held := items
          stage := .fresh
          log := c.log ++ [claimed (c.batch + 1) items] }
  /-- Leases are lost, or given up. -/
  | lose {c : Custody ι ν} {kept : List (ι × ν)} :
      kept.Sublist c.held → Step c { c with held := kept }
  | renew {c : Custody ι ν} (ids : List ι) : Step c (c.record (renewed c.batch ids))
  /-- The first turn is not taken. -/
  | skip {c : Custody ι ν} : c.stage = .fresh → Step c { c with stage := .between }
  | chooseFirst {c : Custody ι ν} {id : ι} :
      c.stage = .fresh → (c.items.map Prod.fst).head? = some id →
        Step c { c with stage := .turn id }
  | choose {c : Custody ι ν} {id : ι} :
      c.stage = .between → id ∈ c.held.map Prod.fst → Confirmed c.log c.batch id →
        Step c { c with stage := .turn id }
  | start {c : Custody ι ν} {id : ι} :
      c.stage = .turn id → started c.batch id ∉ c.log → Step c (c.record (started c.batch id))
  | finish {c : Custody ι ν} {id : ι} {kept : List (ι × ν)} :
      c.stage = .turn id → kept.Sublist c.held → (∀ item ∈ kept, item.1 ≠ id) →
        Step c { c with
          held := kept
          stage := .between
          log := c.log ++ [ended c.batch id] }
  /-- What waits for its turn is given up, to be released. -/
  | take {c : Custody ι ν} {kept waiting : List (ι × ν)} :
      c.stage ≠ .fresh → (kept ++ waiting).Perm c.held →
        (∀ item ∈ waiting, c.stage ≠ .turn item.1) →
        Step c { c with held := kept, owed := c.owed + (leasesOf c.batch waiting : Multiset _) }
  | release {c : Custody ι ν} {rest : Multiset (Lease ι ν)} {batch : ℕ} {items : List (ι × ν)} :
      items ≠ [] → c.owed = rest + (leasesOf batch items : Multiset _) →
        Step c { c with owed := rest, log := c.log ++ [released batch items] }

/-! ## Leases and records -/

/-- The leases of a batch are those of its items. -/
@[simp] theorem mem_leasesOf {batch : ℕ} {items : List (ι × ν)} {lease : Lease ι ν} :
    lease ∈ leasesOf batch items ↔ lease.1 = batch ∧ lease.2 ∈ items := by
  obtain ⟨b, item⟩ := lease
  simp only [leasesOf, List.mem_map, Prod.mk.injEq, exists_eq_right_right]
  exact and_comm.trans (and_congr_left fun _ => eq_comm)

/-- They are known by the items' ids. -/
theorem map_key_leasesOf (batch : ℕ) (items : List (ι × ν)) :
    (leasesOf batch items).map Lease.key = (items.map Prod.fst).map (Prod.mk batch) := by
  rw [leasesOf, List.map_map, List.map_map]
  rfl

/-- A lease of a batch is known by the batch and the id of an item. -/
theorem mem_map_key_leasesOf {batch b : ℕ} {items : List (ι × ν)} {id : ι} :
    (b, id) ∈ (leasesOf batch items).map Lease.key ↔ b = batch ∧ id ∈ items.map Prod.fst := by
  rw [map_key_leasesOf, List.mem_map]
  constructor
  · rintro ⟨i, hi, he⟩
    obtain ⟨rfl, rfl⟩ := Prod.mk.inj he
    exact ⟨rfl, hi⟩
  · rintro ⟨rfl, hi⟩
    exact ⟨id, hi, rfl⟩

/-- What is released is added to what was. -/
@[simp] theorem releasedIn_concat (log : List (BatchEvent ι ν)) (e : BatchEvent ι ν) :
    releasedIn (log ++ [e]) = releasedIn log ++ e.releases := by
  rw [releasedIn, releasedIn, List.flatMap_append, List.flatMap_singleton]

/-- What was released was released by an event. -/
theorem mem_releasedIn {log : List (BatchEvent ι ν)} {lease : Lease ι ν} :
    lease ∈ releasedIn log ↔ ∃ items, released lease.1 items ∈ log ∧ lease.2 ∈ items := by
  rw [releasedIn, List.mem_flatMap]
  constructor
  · rintro ⟨e, he, hl⟩
    cases e with
    | released batch items =>
      obtain ⟨hb, hl⟩ := mem_leasesOf.mp hl
      exact ⟨items, hb ▸ he, hl⟩
    | _ => exact absurd hl List.not_mem_nil
  · rintro ⟨items, he, hl⟩
    exact ⟨_, he, mem_leasesOf.mpr ⟨rfl, hl⟩⟩

/-- The same by the id. -/
theorem mem_keys_releasedIn {log : List (BatchEvent ι ν)} {batch : ℕ} {id : ι} :
    (batch, id) ∈ (releasedIn log).map Lease.key ↔
      ∃ items, released batch items ∈ log ∧ id ∈ items.map Prod.fst := by
  simp only [List.mem_map, mem_releasedIn]
  constructor
  · rintro ⟨⟨b, item⟩, ⟨items, he, hi⟩, hkey⟩
    obtain ⟨rfl, rfl⟩ := Prod.mk.inj hkey
    exact ⟨items, he, item, hi, rfl⟩
  · rintro ⟨items, he, item, hi, rfl⟩
    exact ⟨(batch, item), ⟨items, he, hi⟩, rfl⟩

/-- An event that is no turn leaves the confirmations alone. -/
theorem Confirmed.concat {log : List (BatchEvent ι ν)} {batch : ℕ} {id : ι}
    (h : Confirmed log batch id) {e : BatchEvent ι ν} (he : e.isTurn = false) :
    Confirmed (log ++ [e]) batch id := by
  obtain ⟨before, ids, since, rfl, hid, hended, hsince⟩ := h
  refine ⟨before, ids, since ++ [e], by rw [List.append_assoc, List.cons_append], hid, hended, ?_⟩
  intro e' he'
  rcases List.mem_append.mp he' with he' | he'
  · exact hsince e' he'
  · exact List.mem_singleton.mp he' ▸ he

/-- A renewal between two turns confirms what it names. -/
theorem confirmed_renewed {log : List (BatchEvent ι ν)} {batch : ℕ} {ids : List ι} {id : ι}
    (h : ∀ other, started batch other ∈ log → ended batch other ∈ log) (hid : id ∈ ids) :
    Confirmed (log ++ [renewed batch ids]) batch id :=
  ⟨log, ids, [], rfl, hid, h, fun _ he => absurd he List.not_mem_nil⟩

/-! ## The invariant -/

namespace Custody

/-- Every lease that is held, owed or released. -/
def places (c : Custody ι ν) : Multiset (ℕ × ι) :=
  ((leasesOf c.batch c.held : Multiset _) + c.owed + (releasedIn c.log : Multiset _)).map Lease.key

/-- What the stage says. -/
def AtStage (c : Custody ι ν) : Stage ι → Prop
  | .fresh =>
    (∀ lease ∈ c.owed, lease.1 ≠ c.batch) ∧ (∀ lease ∈ releasedIn c.log, lease.1 ≠ c.batch) ∧
      ∀ id, started c.batch id ∉ c.log
  | .between => True
  | .turn id =>
    claimed c.batch c.items ∈ c.log ∧ id ∈ c.items.map Prod.fst ∧
      (c.batch, id) ∉ c.owed.map Lease.key ∧ (c.batch, id) ∉ (releasedIn c.log).map Lease.key ∧
      (started c.batch id ∈ c.log ∨ (c.items.map Prod.fst).head? = some id ∨
        Confirmed c.log c.batch id)

/-- **What holds of a custody**: every lease is in one place, and what is held or owed was claimed and not
given away. -/
structure Inv (c : Custody ι ν) : Prop where
  log : EachAfter BatchEvent.Follows c.log
  batches : ∀ e ∈ c.log, e.batch ≤ c.batch
  /-- Each lease is in one place at most. -/
  once : c.places.Nodup
  items : ∀ item ∈ c.items, claimed c.batch c.items ∈ c.log
  held : ∀ item ∈ c.held, item ∈ c.items
  /-- What is owed was never started. -/
  owed : ∀ lease ∈ c.owed, started lease.1 lease.2.1 ∉ c.log ∧
    ∃ items, claimed lease.1 items ∈ c.log ∧ lease.2 ∈ items
  /-- What is held and started is in its turn. -/
  running : ∀ item ∈ c.held, started c.batch item.1 ∈ c.log → c.stage = .turn item.1
  ended : ∀ id, started c.batch id ∈ c.log → ended c.batch id ∈ c.log ∨ c.stage = .turn id
  stage : c.AtStage c.stage

/-- It holds before the first batch. -/
theorem inv_init : (init : Custody ι ν).Inv where
  log := eachAfter_nil
  batches _ he := absurd he List.not_mem_nil
  once := Multiset.nodup_zero
  items _ hi := absurd hi List.not_mem_nil
  held _ hi := absurd hi List.not_mem_nil
  owed _ hl := absurd hl (Multiset.notMem_zero _)
  running _ hi := absurd hi List.not_mem_nil
  ended _ he := absurd he List.not_mem_nil
  stage := trivial

variable {c c' : Custody ι ν}

/-- Nothing has happened to a batch that is still to come. -/
theorem Inv.notMem_of_lt (h : c.Inv) {e : BatchEvent ι ν} (he : c.batch < e.batch) : e ∉ c.log :=
  fun hm => absurd (h.batches e hm) (Nat.not_le.mpr he)

/-- What is owed is of no later batch. -/
theorem Inv.owed_le (h : c.Inv) {lease : Lease ι ν} (hl : lease ∈ c.owed) : lease.1 ≤ c.batch := by
  obtain ⟨-, items, he, -⟩ := h.owed lease hl
  exact h.batches _ he

/-- So is what was released. -/
theorem Inv.released_le (h : c.Inv) {lease : Lease ι ν} (hl : lease ∈ releasedIn c.log) :
    lease.1 ≤ c.batch := by
  obtain ⟨items, he, -⟩ := mem_releasedIn.mp hl
  exact h.batches _ he

/-- What is held is not owed, and was not released. -/
theorem Inv.only_held (h : c.Inv) {id : ι} (hid : id ∈ c.held.map Prod.fst) :
    (c.batch, id) ∉ c.owed.map Lease.key ∧ (c.batch, id) ∉ (releasedIn c.log).map Lease.key := by
  have honce := h.once
  rw [places, Multiset.map_add, Multiset.map_add, Multiset.nodup_add, Multiset.nodup_add] at honce
  obtain ⟨⟨-, -, howed⟩, -, hreleased⟩ := honce
  have hheld : (c.batch, id) ∈ (leasesOf c.batch c.held : Multiset (Lease ι ν)).map Lease.key := by
    rw [Multiset.map_coe, Multiset.mem_coe, mem_map_key_leasesOf]
    exact ⟨rfl, hid⟩
  refine ⟨Multiset.disjoint_left.mp howed hheld, fun hr => ?_⟩
  refine Multiset.disjoint_left.mp hreleased (Multiset.mem_add.mpr (Or.inl hheld)) ?_
  rwa [Multiset.map_coe, Multiset.mem_coe]

/-! ### What the steps keep -/

/-- What does not start anything new keeps what was started. -/
theorem started_of_concat {log : List (BatchEvent ι ν)} {e : BatchEvent ι ν} {batch : ℕ} {id : ι}
    (h : started batch id ∈ log ++ [e]) (he : ∀ b i, e ≠ started b i) : started batch id ∈ log := by
  rcases List.mem_append.mp h with h | h
  · exact h
  · exact absurd (List.mem_singleton.mp h).symm (he batch id)

/-- An event of a batch so far is of no later batch. -/
theorem Inv.batches_concat (h : c.Inv) {e : BatchEvent ι ν} (he : e.batch ≤ c.batch) :
    ∀ e' ∈ c.log ++ [e], e'.batch ≤ c.batch := by
  intro e' he'
  rcases List.mem_append.mp he' with he' | he'
  · exact h.batches e' he'
  · obtain rfl := List.mem_singleton.mp he'
    exact he

/-- What is owed was claimed and not started, and stays so unless it is started. -/
theorem Inv.owed_concat (h : c.Inv) {e : BatchEvent ι ν} (he : ∀ b i, e ≠ started b i) :
    ∀ lease ∈ c.owed, started lease.1 lease.2.1 ∉ c.log ++ [e] ∧
      ∃ items, claimed lease.1 items ∈ c.log ++ [e] ∧ lease.2 ∈ items := by
  intro lease hl
  obtain ⟨hs, items, hc, hm⟩ := h.owed lease hl
  exact ⟨fun hs' => hs (started_of_concat hs' he), items, List.mem_append_left _ hc, hm⟩

/-- An event that releases nothing leaves every lease in one place. -/
theorem Inv.once_concat (h : c.Inv) {e : BatchEvent ι ν} (he : e.releases = []) :
    (c.record e).places.Nodup := by
  rw [record, places, releasedIn_concat, he, List.append_nil]
  exact h.once

/-- It is kept when a batch is claimed. -/
theorem Inv.claim (h : c.Inv) {items : List (ι × ν)} (hnodup : (items.map Prod.fst).Nodup) :
    Inv { c with
      batch := c.batch + 1
      items := items
      held := items
      stage := .fresh
      log := c.log ++ [claimed (c.batch + 1) items] } := by
  have hunstarted : ∀ id, started (c.batch + 1) id ∉ c.log ++ [claimed (c.batch + 1) items] :=
    fun id hs => h.notMem_of_lt (Nat.lt_succ_self _) (started_of_concat hs nofun)
  have hreleased : releasedIn (c.log ++ [claimed (c.batch + 1) items]) = releasedIn c.log := by
    rw [releasedIn_concat]
    exact List.append_nil _
  refine ⟨eachAfter_concat.mpr ⟨h.log, trivial⟩, ?_, ?_, ?_, fun _ hi => hi, ?_, ?_, ?_, ?_⟩
  · intro e he
    rcases List.mem_append.mp he with he | he
    · exact Nat.le_succ_of_le (h.batches e he)
    · obtain rfl := List.mem_singleton.mp he
      exact Nat.le_refl _
  · -- the new leases have a batch of their own
    rw [places, hreleased, add_assoc, Multiset.map_add, Multiset.nodup_add]
    refine ⟨?_, ?_, ?_⟩
    · rw [Multiset.map_coe, Multiset.coe_nodup, map_key_leasesOf]
      exact hnodup.map (Prod.mk_right_injective _)
    · have honce := h.once
      rw [places, add_assoc, Multiset.map_add, Multiset.nodup_add] at honce
      exact honce.2.1
    · rw [Multiset.disjoint_left]
      rintro ⟨b, id⟩ hnew hold
      rw [Multiset.map_coe, Multiset.mem_coe, mem_map_key_leasesOf] at hnew
      obtain ⟨lease, hl, hkey⟩ := Multiset.mem_map.mp hold
      -- an older lease is of an older batch
      obtain rfl : lease.1 = b := congrArg Prod.fst hkey
      have hle : lease.1 ≤ c.batch := by
        rcases Multiset.mem_add.mp hl with hl | hl
        · exact h.owed_le hl
        · exact h.released_le (Multiset.mem_coe.mp hl)
      rw [hnew.1] at hle
      exact absurd hle (Nat.not_succ_le_self _)
  · exact fun _ _ => List.mem_append_right _ (List.mem_singleton.mpr rfl)
  · exact h.owed_concat nofun
  · exact fun item _ hs => absurd hs (hunstarted item.1)
  · exact fun id hs => absurd hs (hunstarted id)
  · refine ⟨fun lease hl => ?_, fun lease hl => ?_, hunstarted⟩
    · exact (Nat.lt_succ_of_le (h.owed_le hl)).ne
    · rw [hreleased] at hl
      exact (Nat.lt_succ_of_le (h.released_le hl)).ne

/-- It is kept when items are lost. -/
theorem Inv.lose (h : c.Inv) {kept : List (ι × ν)} (hk : kept.Sublist c.held) :
    Inv { c with held := kept } := by
  refine ⟨h.log, h.batches, ?_, h.items, fun item hi => h.held item (hk.subset hi), h.owed,
    fun item hi => h.running item (hk.subset hi), h.ended, h.stage⟩
  have hle : (leasesOf c.batch kept : Multiset (Lease ι ν)) ≤ leasesOf c.batch c.held :=
    Multiset.coe_le.mpr (hk.map (Prod.mk c.batch)).subperm
  exact Multiset.nodup_of_le
    (Multiset.map_le_map (add_le_add_left (add_le_add_left hle _) _)) h.once

/-- An event that gives nothing back and starts nothing can be recorded at any stage. -/
theorem Inv.record (h : c.Inv) {e : BatchEvent ι ν} (hb : e.batch ≤ c.batch)
    (hr : e.releases = []) (he : e.isTurn = false) (hf : e.Follows c.log) : (c.record e).Inv := by
  have hns : ∀ b i, e ≠ started b i := by
    rintro b i rfl
    exact nomatch he
  have hreleased : releasedIn (c.log ++ [e]) = releasedIn c.log := by
    rw [releasedIn_concat, hr, List.append_nil]
  refine ⟨eachAfter_concat.mpr ⟨h.log, hf⟩, ?_, ?_, ?_, h.held, ?_, ?_, ?_, ?_⟩
  · exact h.batches_concat hb
  · exact h.once_concat hr
  · exact fun item hi => List.mem_append_left _ (h.items item hi)
  · exact h.owed_concat hns
  · exact fun item hi hs => h.running item hi (started_of_concat hs hns)
  · intro id hs
    exact (h.ended id (started_of_concat hs hns)).imp_left (List.mem_append_left _)
  · have hstage := h.stage
    show AtStage _ c.stage
    cases hc : c.stage with
    | fresh =>
      rw [hc] at hstage
      obtain ⟨ho, hrel, hs⟩ := hstage
      exact ⟨ho, fun lease hl => hrel lease (hreleased ▸ hl),
        fun id hs' => hs id (started_of_concat hs' hns)⟩
    | between => trivial
    | turn id =>
      rw [hc] at hstage
      obtain ⟨hcl, hid, ho, hrel, hs⟩ := hstage
      refine ⟨List.mem_append_left _ hcl, hid, ho, hreleased.symm ▸ hrel, ?_⟩
      exact hs.imp (List.mem_append_left _) (Or.imp_right fun hconf => hconf.concat he)

/-- It is kept when the first item is passed over. -/
theorem Inv.skip (h : c.Inv) (hf : c.stage = .fresh) : Inv { c with stage := .between } := by
  have hs := h.stage
  rw [hf] at hs
  refine ⟨h.log, h.batches, h.once, h.items, h.held, h.owed, ?_, ?_, trivial⟩
  · exact fun item _ hs' => absurd hs' (hs.2.2 item.1)
  · exact fun id hs' => absurd hs' (hs.2.2 id)

/-- It is kept when the first item has its turn. -/
theorem Inv.chooseFirst (h : c.Inv) {id : ι} (hf : c.stage = .fresh)
    (hfirst : (c.items.map Prod.fst).head? = some id) : Inv { c with stage := .turn id } := by
  have hs := h.stage
  rw [hf] at hs
  obtain ⟨howed, hreleased, hunstarted⟩ := hs
  have hid : id ∈ c.items.map Prod.fst := List.mem_of_head? hfirst
  obtain ⟨item, hi, -⟩ := List.mem_map.mp hid
  refine ⟨h.log, h.batches, h.once, h.items, h.held, h.owed, ?_, ?_, h.items item hi, hid, ?_, ?_,
    Or.inr (Or.inl hfirst)⟩
  · exact fun item _ hs' => absurd hs' (hunstarted item.1)
  · exact fun id hs' => absurd hs' (hunstarted id)
  · intro hm
    obtain ⟨lease, hl, hkey⟩ := Multiset.mem_map.mp hm
    exact howed lease hl (congrArg Prod.fst hkey)
  · intro hm
    obtain ⟨lease, hl, hkey⟩ := List.mem_map.mp hm
    exact hreleased lease hl (congrArg Prod.fst hkey)

/-- It is kept when another item that was confirmed has its turn. -/
theorem Inv.choose (h : c.Inv) {id : ι} (hb : c.stage = .between)
    (hid : id ∈ c.held.map Prod.fst) (hconf : Confirmed c.log c.batch id) :
    Inv { c with stage := .turn id } := by
  -- what is held is in no other place
  obtain ⟨howed, hreleased⟩ := h.only_held hid
  obtain ⟨item, hi, rfl⟩ := List.mem_map.mp hid
  have hitem := h.held item hi
  refine ⟨h.log, h.batches, h.once, h.items, h.held, h.owed, ?_, ?_, h.items item hitem,
    List.mem_map_of_mem hitem, howed, hreleased, Or.inr (Or.inr hconf)⟩
  · intro item' hi' hs'
    exact nomatch hb.symm.trans (h.running item' hi' hs')
  · intro id hs'
    exact Or.inl ((h.ended id hs').resolve_right fun ht => nomatch hb.symm.trans ht)

/-- It is kept when the item whose turn it is is started. -/
theorem Inv.start (h : c.Inv) {id : ι} (ht : c.stage = .turn id)
    (hs : started c.batch id ∉ c.log) : (c.record (started c.batch id)).Inv := by
  have hstage := h.stage
  rw [ht] at hstage
  obtain ⟨hclaimed, hid, howed, hreleased, hclear⟩ := hstage
  have hreleased' : releasedIn (c.log ++ [started c.batch id]) = releasedIn c.log := by
    rw [releasedIn_concat]
    exact List.append_nil _
  have hnew : ∀ i, started c.batch i ∈ c.log ++ [started c.batch id] →
      started c.batch i ∈ c.log ∨ i = id := by
    intro i hi
    rcases List.mem_append.mp hi with hi | hi
    · exact Or.inl hi
    · obtain ⟨-, rfl⟩ := BatchEvent.started.inj (List.mem_singleton.mp hi)
      exact Or.inr rfl
  refine ⟨eachAfter_concat.mpr ⟨h.log, hs, ?_, c.items, hclaimed, hid, ?_⟩, ?_, ?_, ?_, h.held, ?_,
    ?_, ?_, ?_⟩
  · intro items hr hm
    exact hreleased (mem_keys_releasedIn.mpr ⟨items, hr, hm⟩)
  · exact hclear.resolve_left hs
  · exact h.batches_concat (Nat.le_refl _)
  · exact h.once_concat rfl
  · exact fun item hi => List.mem_append_left _ (h.items item hi)
  · intro lease hl
    obtain ⟨hs', claims, hc, hm⟩ := h.owed lease hl
    refine ⟨fun hm' => ?_, claims, List.mem_append_left _ hc, hm⟩
    rcases List.mem_append.mp hm' with hm' | hm'
    · exact hs' hm'
    · -- what is owed is not the item whose turn it is
      obtain ⟨hb, hi⟩ := BatchEvent.started.inj (List.mem_singleton.mp hm')
      exact howed (Multiset.mem_map.mpr ⟨lease, hl, Prod.ext hb hi⟩)
  · intro item hi hs'
    rcases hnew item.1 hs' with hs' | he
    · exact h.running item hi hs'
    · exact he ▸ ht
  · intro i hs'
    rcases hnew i hs' with hs' | rfl
    · exact (h.ended i hs').imp_left (List.mem_append_left _)
    · exact Or.inr ht
  · show AtStage _ c.stage
    rw [ht]
    exact ⟨List.mem_append_left _ hclaimed, hid, howed, hreleased'.symm ▸ hreleased,
      Or.inl (List.mem_append_right _ (List.mem_singleton.mpr rfl))⟩

/-- It is kept when its turn ends. -/
theorem Inv.finish (h : c.Inv) {id : ι} {kept : List (ι × ν)} (ht : c.stage = .turn id)
    (hk : kept.Sublist c.held) (hid : ∀ item ∈ kept, item.1 ≠ id) :
    Inv { c with
      held := kept
      stage := .between
      log := c.log ++ [.ended c.batch id] } := by
  have h := h.lose hk
  refine ⟨eachAfter_concat.mpr ⟨h.log, trivial⟩, ?_, ?_, ?_, h.held, ?_, ?_, ?_, trivial⟩
  · exact h.batches_concat (Nat.le_refl _)
  · exact h.once_concat rfl
  · exact fun item hi => List.mem_append_left _ (h.items item hi)
  · exact h.owed_concat nofun
  · intro item hi hs
    have hturn := h.running item hi (started_of_concat hs nofun)
    obtain rfl := Stage.turn.inj (ht.symm.trans hturn)
    exact absurd rfl (hid item hi)
  · intro i hs
    refine Or.inl ?_
    rcases h.ended i (started_of_concat hs nofun) with he | hturn
    · exact List.mem_append_left _ he
    · obtain rfl := Stage.turn.inj (ht.symm.trans hturn)
      exact List.mem_append_right _ (List.mem_singleton.mpr rfl)

/-- It is kept when what waits is taken. -/
theorem Inv.take (h : c.Inv) {kept waiting : List (ι × ν)} (hf : c.stage ≠ .fresh)
    (hperm : (kept ++ waiting).Perm c.held) (hw : ∀ item ∈ waiting, c.stage ≠ .turn item.1) :
    Inv { c with held := kept, owed := c.owed + (leasesOf c.batch waiting : Multiset _) } := by
  have hkept : ∀ item ∈ kept, item ∈ c.held :=
    fun item hi => hperm.mem_iff.mp (List.mem_append_left _ hi)
  have hwaiting : ∀ item ∈ waiting, item ∈ c.held :=
    fun item hi => hperm.mem_iff.mp (List.mem_append_right _ hi)
  refine ⟨h.log, h.batches, ?_, h.items, fun item hi => h.held item (hkept item hi), ?_,
    fun item hi => h.running item (hkept item hi), h.ended, ?_⟩
  · have hsplit : (leasesOf c.batch c.held : Multiset (Lease ι ν)) =
        leasesOf c.batch kept + leasesOf c.batch waiting := by
      rw [Multiset.coe_add, Multiset.coe_eq_coe, leasesOf, leasesOf, leasesOf, ← List.map_append]
      exact (hperm.map _).symm
    have honce := h.once
    rw [places, hsplit] at honce
    rw [places, ← add_assoc (leasesOf c.batch kept : Multiset (Lease ι ν)),
      add_right_comm (leasesOf c.batch kept : Multiset (Lease ι ν))]
    exact honce
  · intro lease hl
    rcases Multiset.mem_add.mp hl with hl | hl
    · exact h.owed lease hl
    · obtain ⟨hb, hi⟩ := mem_leasesOf.mp (Multiset.mem_coe.mp hl)
      have hheld := hwaiting _ hi
      rw [hb]
      exact ⟨fun hs => hw _ hi (h.running _ hheld hs), c.items, h.items _ (h.held _ hheld),
        h.held _ hheld⟩
  · have hstage := h.stage
    show AtStage _ c.stage
    cases hc : c.stage with
    | fresh => exact absurd hc hf
    | between => trivial
    | turn id =>
      rw [hc] at hstage
      obtain ⟨hcl, hid, ho, hr, hs⟩ := hstage
      refine ⟨hcl, hid, fun hm => ?_, hr, hs⟩
      rw [Multiset.map_add, Multiset.mem_add, Multiset.map_coe, Multiset.mem_coe,
        mem_map_key_leasesOf] at hm
      rcases hm with hm | ⟨-, hm⟩
      · exact ho hm
      · -- the item whose turn it is does not wait
        obtain ⟨item, hi, rfl⟩ := List.mem_map.mp hm
        exact hw item hi hc

/-- It is kept when what was taken is released. -/
theorem Inv.release (h : c.Inv) {rest : Multiset (Lease ι ν)} {batch : ℕ} {items : List (ι × ν)}
    (hne : items ≠ []) (howed : c.owed = rest + (leasesOf batch items : Multiset _)) :
    Inv { c with owed := rest, log := c.log ++ [released batch items] } := by
  have hleave : ∀ item ∈ items, (batch, item) ∈ c.owed := by
    intro item hi
    rw [howed]
    exact Multiset.mem_add.mpr (Or.inr (Multiset.mem_coe.mpr (mem_leasesOf.mpr ⟨rfl, hi⟩)))
  have hrest : ∀ lease ∈ rest, lease ∈ c.owed := by
    intro lease hl
    rw [howed]
    exact Multiset.mem_add.mpr (Or.inl hl)
  have honce := h.once
  rw [places, howed, ← add_assoc, Multiset.map_add, Multiset.map_add, Multiset.nodup_add,
    Multiset.nodup_add] at honce
  obtain ⟨⟨-, hnodup, -⟩, -, hdisjoint⟩ := honce
  rw [Multiset.map_coe, Multiset.coe_nodup] at hnodup
  refine ⟨eachAfter_concat.mpr ⟨h.log, hnodup, ?_⟩, ?_, ?_, ?_, h.held, ?_, ?_, ?_, ?_⟩
  · intro item hi
    obtain ⟨hs, claims, hc, hm⟩ := h.owed _ (hleave item hi)
    -- a lease that is owed was not released before
    refine ⟨hs, fun hr => ?_, claims, hc, hm⟩
    refine Multiset.disjoint_left.mp hdisjoint (Multiset.mem_add.mpr (Or.inr ?_))
      (by rwa [Multiset.map_coe, Multiset.mem_coe])
    rw [Multiset.map_coe, Multiset.mem_coe, mem_map_key_leasesOf]
    exact ⟨rfl, List.mem_map_of_mem hi⟩
  · obtain ⟨item, hi⟩ := List.exists_mem_of_ne_nil _ hne
    exact h.batches_concat (h.owed_le (hleave item hi))
  · have honce := h.once
    rw [places, howed] at honce
    rw [places, releasedIn_concat, ← Multiset.coe_add]
    show (Multiset.map Lease.key (_ + rest + (_ + (leasesOf batch items : Multiset _)))).Nodup
    -- the leases move from those that are owed to those that were released
    rw [add_comm (releasedIn c.log : Multiset (Lease ι ν)), ← add_assoc, add_assoc _ rest]
    exact honce
  · exact fun item hi => List.mem_append_left _ (h.items item hi)
  · have howed' := h.owed_concat (e := released batch items) nofun
    exact fun lease hl => howed' lease (hrest lease hl)
  · exact fun item hi hs => h.running item hi (started_of_concat hs nofun)
  · intro id hs
    exact (h.ended id (started_of_concat hs nofun)).imp_left (List.mem_append_left _)
  · have hstage := h.stage
    show AtStage _ c.stage
    cases hc : c.stage with
    | fresh =>
      rw [hc] at hstage
      obtain ⟨ho, hr, hs⟩ := hstage
      refine ⟨fun lease hl => ho lease (hrest lease hl), fun lease hl => ?_,
        fun id hs' => hs id (started_of_concat hs' nofun)⟩
      rw [releasedIn_concat] at hl
      rcases List.mem_append.mp hl with hl | hl
      · exact hr lease hl
      · obtain ⟨hb, hi⟩ := mem_leasesOf.mp hl
        rw [hb]
        exact ho (batch, lease.2) (hleave _ hi)
    | between => trivial
    | turn id =>
      rw [hc] at hstage
      obtain ⟨hcl, hid, ho, hr, hs⟩ := hstage
      refine ⟨List.mem_append_left _ hcl, hid, fun hm => ?_, fun hm => ?_, ?_⟩
      · obtain ⟨lease, hl, hkey⟩ := Multiset.mem_map.mp hm
        exact ho (Multiset.mem_map.mpr ⟨lease, hrest lease hl, hkey⟩)
      · rw [releasedIn_concat, List.map_append] at hm
        rcases List.mem_append.mp hm with hm | hm
        · exact hr hm
        · obtain ⟨hb, hid'⟩ := mem_map_key_leasesOf.mp hm
          obtain ⟨item, hi, rfl⟩ := List.mem_map.mp hid'
          exact ho (Multiset.mem_map.mpr ⟨_, hleave item hi, Prod.ext hb.symm rfl⟩)
      · exact hs.imp (List.mem_append_left _) (Or.imp_right fun hconf => hconf.concat rfl)

/-- **Every step keeps the invariant.** -/
theorem Inv.step (h : c.Inv) (hs : Step c c') : c'.Inv := by
  cases hs with
  | claim _ _ hnodup => exact h.claim hnodup
  | lose hk => exact h.lose hk
  | renew ids => exact h.record (Nat.le_refl _) rfl rfl trivial
  | skip hf => exact h.skip hf
  | chooseFirst hf hfirst => exact h.chooseFirst hf hfirst
  | choose hb hid hconf => exact h.choose hb hid hconf
  | start ht hs => exact h.start ht hs
  | finish ht hk hid => exact h.finish ht hk hid
  | take hf hperm hw => exact h.take hf hperm hw
  | release hne howed => exact h.release hne howed

/-- It is kept by any number of steps. -/
theorem Inv.steps (h : c.Inv) (hs : Relation.ReflTransGen Step c c') : c'.Inv := by
  induction hs with
  | refl => exact h
  | tail _ hs ih => exact ih.step hs

/-! ## What the record shows -/

/-- **Nothing is started twice under one lease.** -/
theorem Inv.count_started_le_one [DecidableEq ι] [DecidableEq ν] (h : c.Inv) (batch : ℕ) (id : ι) :
    c.log.count (started batch id) ≤ 1 :=
  h.log.count_le_one fun _ hf => hf.1

/-- **What is started was the first of its batch, or confirmed after the turn before it.** -/
theorem Inv.started_confirmed (h : c.Inv) {past rest : List (BatchEvent ι ν)} {batch : ℕ} {id : ι}
    (hlog : c.log = past ++ started batch id :: rest) :
    ∃ items, claimed batch items ∈ past ∧ id ∈ items.map Prod.fst ∧
      ((items.map Prod.fst).head? = some id ∨ Confirmed past batch id) :=
  (h.log _ _ _ hlog).2.2

/-- **What is released was claimed, and is not started, before or after.** -/
theorem Inv.released_unstarted (h : c.Inv) {batch : ℕ} {items : List (ι × ν)}
    (hr : released batch items ∈ c.log) {item : ι × ν} (hi : item ∈ items) :
    started batch item.1 ∉ c.log ∧ ∃ claims, claimed batch claims ∈ c.log ∧ item ∈ claims := by
  constructor
  · refine h.log.not_both (x := released batch items) ?_ ?_ (fun he => nomatch he) hr
    · exact fun _ hf => (hf.2 item hi).1
    · exact fun _ hf hr => hf.2.1 items hr (List.mem_map_of_mem hi)
  · obtain ⟨past, rest, hlog⟩ := List.mem_iff_append.mp hr
    obtain ⟨claims, hc, hm⟩ := ((h.log _ _ _ hlog).2 item hi).2.2
    exact ⟨claims, hlog ▸ List.mem_append_left _ hc, hm⟩

/-- **No lease is released twice.** -/
theorem Inv.nodup_released (h : c.Inv) : ((releasedIn c.log).map Lease.key).Nodup := by
  have hmap : (releasedIn c.log).map Lease.key =
      c.log.flatMap fun e => e.releases.map Lease.key := by
    rw [releasedIn, List.map_flatMap]
  rw [hmap]
  refine h.log.nodup_flatMap fun past e hf => ?_
  cases e with
  | released batch items =>
    refine ⟨hf.1, ?_⟩
    rintro ⟨b, id⟩ hm
    obtain ⟨rfl, hid⟩ := mem_map_key_leasesOf.mp hm
    obtain ⟨item, hi, rfl⟩ := List.mem_map.mp hid
    have hnew := (hf.2 item hi).2.1
    rwa [releasedIn, List.map_flatMap] at hnew
  | _ => exact ⟨List.nodup_nil, fun _ hb => absurd hb List.not_mem_nil⟩

end Custody

end Jasil
