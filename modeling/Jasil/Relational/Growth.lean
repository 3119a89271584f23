import Jasil.Relational.Table

/-! # How tables change
Between two statements of one process, the others insert, update and delete rows.

* **`Grows`**: every row stays and changes along a relation; rows are added.
* **`Doomed`**: what a process knows of a key it has selected, as long as keys are not given out twice: the row
  under it, if there is one still, has the property for which it was selected.

A property that the changes keep lets a process delete by key what it has selected by a clause. -/

namespace Jasil.Table

variable {κ ρ : Type*} {key : ρ → κ} [DecidableEq κ] {t t' t'' : Table key}

/-! ## Growing -/

/-- Every row is still there, and is what `R` made of it. -/
def Grows (R : ρ → ρ → Prop) (t t' : Table key) : Prop :=
  ∀ k r, t.get k = some r → ∃ r', t'.get k = some r' ∧ R r r'

variable {R S : ρ → ρ → Prop}

/-- What grows by one relation grows by a weaker one. -/
theorem Grows.mono (h : Grows R t t') (hRS : ∀ r r', R r r' → S r r') : Grows S t t' := by
  intro k r hr
  obtain ⟨r', hr', hR⟩ := h k r hr
  exact ⟨r', hr', hRS r r' hR⟩

/-- A table that stays has grown. -/
theorem Grows.refl (hR : ∀ r, R r r) (t : Table key) : Grows R t t :=
  fun _ r hr => ⟨r, hr, hR r⟩

/-- A table that grew twice has grown. -/
theorem Grows.trans (hR : ∀ r r' r'', R r r' → R r' r'' → R r r'') (h : Grows R t t')
    (h' : Grows R t' t'') : Grows R t t'' := by
  intro k r hr
  obtain ⟨r', hr', hrr'⟩ := h k r hr
  obtain ⟨r'', hr'', hrr''⟩ := h' k r' hr'
  exact ⟨r'', hr'', hR r r' r'' hrr' hrr''⟩

/-- A row under an old key is what became of the old row. -/
theorem Grows.cases (h : Grows R t t') {k : κ} {r' : ρ} (hr' : t'.get k = some r') :
    t.get k = none ∨ ∃ r, t.get k = some r ∧ R r r' := by
  cases hr : t.get k with
  | none => exact .inl rfl
  | some r =>
    obtain ⟨r'', hr'', hR⟩ := h k r hr
    obtain rfl := Option.some.inj (hr''.symm.trans hr')
    exact .inr ⟨r, rfl, hR⟩

/-- No row is lost. -/
theorem Grows.get_ne_none (h : Grows R t t') {k : κ} (hk : t.get k ≠ none) : t'.get k ≠ none := by
  obtain ⟨r, hr⟩ := Option.ne_none_iff_exists'.mp hk
  obtain ⟨r', hr', -⟩ := h k r hr
  rw [hr']
  exact Option.some_ne_none r'

/-- Rows are added. -/
theorem grows_append {rows : List ρ} (h : t'.rows = t.rows ++ rows) (hR : ∀ r, R r r) : Grows R t t' :=
  fun _ r hr => ⟨r, get_of_append h hr, hR r⟩

/-- A row is inserted. -/
theorem grows_insert (hR : ∀ r, R r r) (r : ρ) : Grows R t (t.insert r) := by
  intro k r₀ hr₀
  refine ⟨r₀, ?_, hR r₀⟩
  rw [get_insert, hr₀]
  rfl

/-- Rows are inserted. -/
theorem grows_insertAll (hR : ∀ r, R r r) (rs : List ρ) : Grows R t (t.insertAll rs) := by
  obtain ⟨rows, hrows⟩ := rows_insertAll t rs
  exact grows_append hrows hR

/-- Rows are updated within the relation. -/
theorem grows_update {p : ρ → Prop} [DecidablePred p] {f : ρ → ρ} {hf : ∀ r, key (f r) = key r}
    (hR : ∀ r, R r r) (hp : ∀ r, p r → R r (f r)) : Grows R t (t.update p f hf) := by
  intro k r hr
  refine ⟨_, by rw [get_update, hr, Option.map_some], ?_⟩
  split
  · exact hp r ‹_›
  · exact hR r

/-- A row after inserts was there, or is one of those inserted. -/
theorem mem_insertAll {rs : List ρ} {r : ρ} (h : r ∈ (t.insertAll rs).rows) : r ∈ t.rows ∨ r ∈ rs := by
  induction rs generalizing t with
  | nil => exact .inl h
  | cons r₀ rs ih =>
    rw [insertAll, List.foldl_cons, ← insertAll] at h
    rcases ih h with h | h
    · cases hr₀ : t.get (key r₀) with
      | none =>
        rw [rows_insert_of_new hr₀, List.mem_append, List.mem_singleton] at h
        rcases h with h | rfl
        · exact .inl h
        · exact .inr List.mem_cons_self
      | some r₁ =>
        rw [insert_of_taken hr₀] at h
        exact .inl h
    · exact .inr (List.mem_cons_of_mem _ h)

/-! ## Deleting what was selected -/

/-- What is under the key was deleted meanwhile, or has the property. -/
structure Doomed (P : ρ → Prop) (seen : List κ) (t : Table key) (k : κ) : Prop where
  seen : k ∈ seen
  dead : ∀ r ∈ t.get k, P r

variable {P P' : ρ → Prop} {seen seen' : List κ} {k : κ}

/-- A row that is there may be deleted. -/
theorem Doomed.of_mem {r : ρ} (hr : r ∈ t.rows) (hseen : key r ∈ seen) (hP : P r) :
    Doomed P seen t (key r) := by
  refine ⟨hseen, fun r' hr' => ?_⟩
  obtain rfl := Option.some.inj ((get_key hr).symm.trans hr')
  exact hP

/-- **A selected row stays doomed** through changes that keep its property, as no other row takes its key. -/
theorem Doomed.grows (h : Doomed P seen t k) (hgrows : Grows R t t') (hsub : seen ⊆ seen')
    (hnew : ∀ r ∈ t'.rows, t.get (key r) = none → key r ∉ seen)
    (hP : ∀ r r', R r r' → P r → P' r') : Doomed P' seen' t' k := by
  refine ⟨hsub h.seen, fun r' hr' => ?_⟩
  rcases hgrows.cases hr' with hnone | ⟨r, hr, hR⟩
  · obtain ⟨hmem, rfl⟩ := get_eq_some_iff.mp hr'
    exact absurd h.seen (hnew r' hmem hnone)
  · exact hP r r' hR (h.dead r hr)

/-- A row under a key after a delete was there before. -/
theorem get_of_get_delete {p : ρ → Prop} [DecidablePred p] {r : ρ} (h : (t.delete p).get k = some r) :
    t.get k = some r := by
  obtain ⟨hmem, hkey⟩ := get_eq_some_iff.mp h
  exact get_eq_some_iff.mpr ⟨(mem_delete.mp hmem).1, hkey⟩

/-- A row that is gone after a delete was one the clause matched. -/
theorem match_of_get_delete {p : ρ → Prop} [DecidablePred p] {r : ρ} (hr : r ∈ t.rows)
    (h : (t.delete p).get (key r) = none) : p r := by
  by_contra hp
  exact get_eq_none_iff.mp h r (mem_delete.mpr ⟨hr, hp⟩) rfl

/-- A deletion leaves what may be deleted. -/
theorem Doomed.delete {p : ρ → Prop} [DecidablePred p] (h : Doomed P seen t k) (hsub : seen ⊆ seen')
    (hP : ∀ r, P r → P' r) : Doomed P' seen' (t.delete p) k :=
  ⟨hsub h.seen, fun r hr => hP r (h.dead r (get_of_get_delete hr))⟩

/-- **A delete by key of doomed rows** deletes only rows with the property. -/
theorem dead_of_deleted {ks : List κ} (hdoomed : ∀ k ∈ ks, Doomed P seen t k) {r : ρ} (hr : r ∈ t.rows)
    (h : (t.delete fun r => key r ∈ ks).get (key r) = none) : P r := by
  have hmem : key r ∈ ks := match_of_get_delete (p := fun r => key r ∈ ks) hr h
  exact (hdoomed _ hmem).dead r (get_key hr)

end Jasil.Table
