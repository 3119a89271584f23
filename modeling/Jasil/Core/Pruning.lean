import Mathlib.Data.List.Perm.Subperm
import Jasil.Relational.Table

/-! # Deleting in bounded batches
`bounded_delete`: the rows a clause matches are deleted in batches, each in a transaction of its own. A batch
is a page of ids, as many as the limit allows, in whatever order the database hands them out. -/

namespace Jasil

/-- `PRUNE_BATCH_SIZE`. -/
def pruneBatchSize : ℕ := 1000

/-- `PRUNE_MAX_BATCHES`. -/
def pruneMaxBatches : ℕ := 10000

namespace Table

variable {κ ρ ι : Type*} {key : ρ → κ}

/-- What `SELECT … WHERE p LIMIT size` may return: the keys of that many rows the clause matches, of all of
them when there are fewer. -/
structure IsPage (t : Table key) (p : ρ → Prop) [DecidablePred p] (size : ℕ) (page : List κ) : Prop where
  nodup : page.Nodup
  matching : ∀ k ∈ page, ∃ r ∈ t.rows, p r ∧ key r = k
  length_eq : page.length = min size (t.rowcount p)

instance [DecidableEq κ] (t : Table key) (p : ρ → Prop) [DecidablePred p] (size : ℕ) (page : List κ) :
    Decidable (t.IsPage p size page) :=
  decidable_of_iff (page.Nodup ∧ (∀ k ∈ page, ∃ r ∈ t.rows, p r ∧ key r = k)
      ∧ page.length = min size (t.rowcount p))
    ⟨fun h => ⟨h.1, h.2.1, h.2.2⟩, fun h => ⟨h.1, h.2, h.3⟩⟩

/-- The ids of the rows of a page. -/
def pageIds [DecidableEq κ] (t : Table key) (id : ρ → ι) (page : List κ) : List ι :=
  (t.rows.filter fun r => key r ∈ page).map id

/-- `DELETE … WHERE id IN (ids)`, for the ids of a page. -/
def deletePage [DecidableEq κ] [DecidableEq ι] (t : Table key) (id : ρ → ι) (page : List κ) : Table key :=
  t.delete fun r => id r ∈ t.pageIds id page

section Page

variable {t : Table key} {p : ρ → Prop} [DecidablePred p] {size : ℕ} {page : List κ} {id : ρ → ι}

/-- Where ids are distinct, a row is deleted exactly when it is on the page. -/
theorem mem_deletePage [DecidableEq κ] [DecidableEq ι] (hids : (t.rows.map id).Nodup) {r : ρ} :
    r ∈ (t.deletePage id page).rows ↔ r ∈ t.rows ∧ key r ∉ page := by
  rw [deletePage, mem_delete]
  refine and_congr_right fun hr => not_congr ?_
  rw [pageIds, List.mem_map]
  constructor
  · rintro ⟨r', hr', hid⟩
    obtain ⟨hr', hpage⟩ := List.mem_filter.mp hr'
    rw [List.inj_on_of_nodup_map hids hr' hr hid] at hpage
    exact of_decide_eq_true hpage
  · intro hpage
    exact ⟨r, List.mem_filter.mpr ⟨hr, decide_eq_true hpage⟩, rfl⟩

/-- Only rows the clause matches are deleted. -/
theorem IsPage.match_of_deleted (h : t.IsPage p size page) {r : ρ} (hr : r ∈ t.rows)
    (hpage : key r ∈ page) : p r := by
  obtain ⟨r', hr', hp, hkey⟩ := h.matching _ hpage
  rwa [eq_of_key_eq hr' hr hkey] at hp

/-- A page with room for every row the clause matches holds them all. -/
theorem IsPage.mem_of_full (h : t.IsPage p size page) (hroom : t.rowcount p ≤ size) {r : ρ} (hr : r ∈ t.rows)
    (hp : p r) : key r ∈ page := by
  have hlen : ((t.select p).map key).length ≤ page.length := by
    have hcount : t.rowcount p = (t.select p).length := by rw [rowcount, List.countP_eq_length_filter, select]
    have := h.length_eq
    rw [List.length_map]
    omega
  -- the keys of the matching rows are as many as the page has, and among them
  have hsub : page ⊆ (t.select p).map key := by
    intro k hk
    obtain ⟨r', hr', hp', rfl⟩ := h.matching k hk
    exact List.mem_map_of_mem (mem_select.mpr ⟨hr', hp'⟩)
  have hperm := (h.nodup.subperm hsub).perm_of_length_le hlen
  exact hperm.mem_iff.mpr (List.mem_map_of_mem (mem_select.mpr ⟨hr, hp⟩))

/-- **With more rows than a page holds, any one of them may be on it and any other not.** -/
theorem exists_page [DecidableEq κ] (hsize : 0 < size) (hmany : size < t.rowcount p) {r r' : ρ} (hr : r ∈ t.rows)
    (hp : p r) (hr' : r' ∈ t.rows) (hp' : p r') (hne : r ≠ r') :
    ∃ page, t.IsPage p size page ∧ key r ∈ page ∧ key r' ∉ page := by
  have hkeys : key r ≠ key r' := fun heq => hne (eq_of_key_eq hr hr' heq)
  have hnodup : ((t.select p).map key).Nodup := t.nodup.sublist (List.filter_sublist.map key)
  have hmem {r : ρ} (hr : r ∈ t.rows) (hp : p r) : key r ∈ (t.select p).map key :=
    List.mem_map_of_mem (mem_select.mpr ⟨hr, hp⟩)
  -- the other rows, all but those two
  let others := (((t.select p).map key).erase (key r)).erase (key r')
  have hothers : ∀ k ∈ others, k ∈ (t.select p).map key ∧ k ≠ key r ∧ k ≠ key r' := by
    intro k hk
    obtain ⟨hne', hk⟩ := ((hnodup.erase _).mem_erase_iff).mp hk
    obtain ⟨hne, hk⟩ := hnodup.mem_erase_iff.mp hk
    exact ⟨hk, hne, hne'⟩
  have hlength : size ≤ others.length + 1 := by
    have hcount : t.rowcount p = (t.select p).length := by rw [rowcount, List.countP_eq_length_filter, select]
    have hlength : others.length = (t.select p).length - 1 - 1 := by
      rw [List.length_erase_of_mem (hnodup.mem_erase_iff.mpr ⟨hkeys.symm, hmem hr' hp'⟩),
        List.length_erase_of_mem (hmem hr hp), List.length_map]
    omega
  have hpage : ∀ k ∈ (key r :: others).take size, k = key r ∨ k ∈ others :=
    fun k hk => List.mem_cons.mp (List.mem_of_mem_take hk)
  refine ⟨(key r :: others).take size, ⟨?_, fun k hk => ?_, ?_⟩, ?_, fun hk => ?_⟩
  · have hcons : (key r :: others).Nodup :=
      List.nodup_cons.mpr ⟨fun hk => (hothers _ hk).2.1 rfl, (hnodup.erase _).erase _⟩
    exact hcons.sublist (List.take_sublist _ _)
  · rcases hpage k hk with rfl | hk
    · exact ⟨r, hr, hp, rfl⟩
    · obtain ⟨r₁, hr₁, rfl⟩ := List.mem_map.mp (hothers k hk).1
      exact ⟨r₁, (mem_select.mp hr₁).1, (mem_select.mp hr₁).2, rfl⟩
  · rw [List.length_take, List.length_cons]
    omega
  · obtain ⟨n, rfl⟩ := Nat.exists_eq_succ_of_ne_zero (Nat.pos_iff_ne_zero.mp hsize)
    rw [List.take_succ_cons]
    exact List.mem_cons_self
  · rcases hpage _ hk with heq | hk
    · exact hkeys heq.symm
    · exact (hothers _ hk).2.2 rfl

end Page

end Table

end Jasil
