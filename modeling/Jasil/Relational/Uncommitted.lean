import Mathlib.Data.List.Nodup
import Mathlib.Logic.Function.Basic

/-! # A unique index and open transactions
Rows are committed, or written by a transaction that is still open and seen by that one only. A unique index
on a value of the rows keeps apart the committed ones, and an insert that meets a row of another open
transaction waits for it.

* **`Apart`**: no value stands twice among the committed rows and those of one transaction, nor in two
  transactions.
* **`Apart.insert`**, **`Apart.commit`**, **`Apart.rollback`**: what the transactions do keeps them apart. -/

namespace Jasil

variable {ι ρ β : Type*} {f : ρ → β} {committed committed' : List ρ} {own : ι → List ρ} {p : ι} {r : ρ}

/-- **What a unique index on `f` says of the committed rows and of those that each transaction has written.** -/
structure Apart (f : ρ → β) (committed : List ρ) (own : ι → List ρ) : Prop where
  unique : (committed.map f).Nodup
  seen : ∀ p, ((committed ++ own p).map f).Nodup
  pair : ∀ p q, p ≠ q → ∀ r ∈ own p, ∀ r' ∈ own q, f r ≠ f r'

namespace Apart

/-- Nothing is apart. -/
theorem empty : Apart f [] fun _ : ι => [] := by
  refine ⟨List.nodup_nil, ?_, ?_⟩
  · intro p
    exact List.nodup_nil
  · intro p q _ r hr
    exact absurd hr List.not_mem_nil

/-- What one transaction has written is apart. -/
theorem nodup_own (h : Apart f committed own) (p : ι) : ((own p).map f).Nodup := by
  have hseen := h.seen p
  rw [List.map_append] at hseen
  exact hseen.of_append_right

/-- A row of a transaction is none of the committed ones. -/
theorem ne_of_mem (h : Apart f committed own) {r' : ρ} (hr : r ∈ committed) (hr' : r' ∈ own p) : f r ≠ f r' := by
  have hseen := h.seen p
  rw [List.map_append] at hseen
  exact (List.nodup_append.mp hseen).2.2 _ (List.mem_map_of_mem hr) _ (List.mem_map_of_mem hr')

/-- Committed rows may be written, as long as their values stay. -/
theorem congr (h : Apart f committed own) (hnodup : (committed'.map f).Nodup)
    (hsub : ∀ r' ∈ committed', ∃ r ∈ committed, f r = f r') : Apart f committed' own := by
  refine ⟨hnodup, fun p => ?_, h.pair⟩
  rw [List.map_append]
  refine List.nodup_append.mpr ⟨hnodup, h.nodup_own p, ?_⟩
  intro b hb b' hb'
  obtain ⟨r', hr', rfl⟩ := List.mem_map.mp hb
  obtain ⟨r'', hr'', rfl⟩ := List.mem_map.mp hb'
  obtain ⟨r, hr, hsame⟩ := hsub r' hr'
  rw [← hsame]
  exact h.ne_of_mem hr hr''

variable [DecidableEq ι]

/-- The transaction ends, and with it what it has written. -/
theorem rollback (h : Apart f committed own) (p : ι) : Apart f committed (Function.update own p []) := by
  refine ⟨h.unique, fun q => ?_, fun q q' hne r hr r' hr' => ?_⟩
  · by_cases hq : q = p
    · subst hq
      simpa using h.unique
    · rw [Function.update_of_ne hq]
      exact h.seen q
  · by_cases hq : q = p
    · subst hq
      simp at hr
    by_cases hq' : q' = p
    · subst hq'
      simp at hr'
    rw [Function.update_of_ne hq] at hr
    rw [Function.update_of_ne hq'] at hr'
    exact h.pair q q' hne r hr r' hr'

/-- **A transaction inserts a row** with a value that no committed row and no row of any transaction has. -/
theorem insert (h : Apart f committed own) (hcommitted : ∀ r' ∈ committed, f r' ≠ f r)
    (hown : ∀ q, ∀ r' ∈ own q, f r' ≠ f r) : Apart f committed (Function.update own p (own p ++ [r])) := by
  refine ⟨h.unique, fun q => ?_, ?_⟩
  · by_cases hq : q = p
    · subst hq
      rw [Function.update_self, ← List.append_assoc, List.map_append, List.map_singleton]
      refine (h.seen q).append (List.nodup_singleton _) ?_
      rw [List.disjoint_singleton]
      intro hmem
      obtain ⟨r', hr', heq⟩ := List.mem_map.mp hmem
      rcases List.mem_append.mp hr' with hr' | hr'
      · exact hcommitted r' hr' heq
      · exact hown q r' hr' heq
    · rw [Function.update_of_ne hq]
      exact h.seen q
  · -- of two transactions at most one is the one that inserts
    have hnew (q : ι) (hq : q ≠ p) : ∀ r₁ ∈ own p ++ [r], ∀ r₂ ∈ own q, f r₁ ≠ f r₂ := by
      intro r₁ hr₁ r₂ hr₂
      rcases List.mem_append.mp hr₁ with hr₁ | hr₁
      · exact h.pair p q hq.symm r₁ hr₁ r₂ hr₂
      · rw [List.mem_singleton.mp hr₁]
        exact (hown q r₂ hr₂).symm
    intro q q' hne r₁ hr₁ r₂ hr₂
    by_cases hq : q = p
    · subst hq
      rw [Function.update_self] at hr₁
      rw [Function.update_of_ne hne.symm] at hr₂
      exact hnew q' hne.symm r₁ hr₁ r₂ hr₂
    rw [Function.update_of_ne hq] at hr₁
    by_cases hq' : q' = p
    · subst hq'
      rw [Function.update_self] at hr₂
      exact (hnew q hq r₂ hr₂ r₁ hr₁).symm
    · rw [Function.update_of_ne hq'] at hr₂
      exact h.pair q q' hne r₁ hr₁ r₂ hr₂

/-- **A transaction commits**: its rows are there for everybody. -/
theorem commit (h : Apart f committed own) (p : ι) :
    Apart f (committed ++ own p) (Function.update own p []) := by
  refine ⟨h.seen p, fun q => ?_, (h.rollback p).pair⟩
  by_cases hq : q = p
  · subst hq
    simpa using h.seen q
  rw [Function.update_of_ne hq, List.map_append]
  refine List.nodup_append.mpr ⟨h.seen p, h.nodup_own q, ?_⟩
  intro b hb b' hb'
  obtain ⟨r, hr, rfl⟩ := List.mem_map.mp hb
  obtain ⟨r', hr', rfl⟩ := List.mem_map.mp hb'
  rcases List.mem_append.mp hr with hr | hr
  · exact h.ne_of_mem hr hr'
  · exact h.pair p q (Ne.symm hq) r hr r' hr'

end Apart

end Jasil
