import Mathlib.Data.List.Nodup
import Mathlib.Data.Option.Basic

/-! # Keyed tables
A database table as the list of its rows, in insertion order, no two of which share a primary
key. The statements a program issues are functions on it:

* **`Table.get`**: the row with a given primary key;
* **`Table.select`**: the rows a `WHERE` clause matches;
* **`Table.update`**: `UPDATE … SET f WHERE p`, which keeps every primary key;
* **`Table.rowcount`**: how many rows a `WHERE` clause matches;
* **`Table.insert`**: append a row whose key is new, or do nothing;
* **`Table.delete`**: `DELETE … WHERE p`.

Everything a statement does to the table is read off one row at a time: `get_update` and
`get_insert` say what the row with a given key is afterwards, and the proofs about programs use
those, never the list. -/

namespace Jasil

variable {κ ρ : Type*} {key : ρ → κ}

/-- A table whose rows are identified by `key`: the rows in insertion order, keys distinct. -/
structure Table (key : ρ → κ) where
  /-- The rows, oldest first. -/
  rows : List ρ
  /-- No two rows share a primary key. -/
  nodup : (rows.map key).Nodup

namespace Table

/-- The table without rows. -/
def empty : Table key := ⟨[], List.nodup_nil⟩

instance : Inhabited (Table key) := ⟨empty⟩

/-- The row with primary key `k`, if there is one. -/
def get [DecidableEq κ] (t : Table key) (k : κ) : Option ρ := t.rows.find? fun r => key r = k

/-- The rows a `WHERE` clause matches, in insertion order. -/
def select (t : Table key) (p : ρ → Prop) [DecidablePred p] : List ρ := t.rows.filter (p ·)

/-- The number of rows a `WHERE` clause matches. -/
def rowcount (t : Table key) (p : ρ → Prop) [DecidablePred p] : ℕ := t.rows.countP (p ·)

/-- `UPDATE … SET f WHERE p`, for a `SET` that leaves the primary key alone. -/
def update (t : Table key) (p : ρ → Prop) [DecidablePred p] (f : ρ → ρ)
    (hf : ∀ r, key (f r) = key r) : Table key where
  rows := t.rows.map fun r => if p r then f r else r
  nodup := by
    have h : ((t.rows.map fun r => if p r then f r else r).map key) = t.rows.map key := by
      rw [List.map_map]
      refine List.map_congr_left fun r _ => ?_
      simp only [Function.comp_apply]
      split
      · exact hf r
      · rfl
    rw [h]
    exact t.nodup

/-- Append `r`, unless its primary key is already taken. -/
def insert [DecidableEq κ] (t : Table key) (r : ρ) : Table key :=
  if h : key r ∈ t.rows.map key then t
  else ⟨t.rows ++ [r], by
    rw [List.map_append]
    exact t.nodup.append (List.nodup_singleton _) (by simpa using h)⟩

/-- Append the rows of `rs` in order, each unless its primary key is already taken. -/
def insertAll [DecidableEq κ] (t : Table key) (rs : List ρ) : Table key := rs.foldl insert t

/-- `DELETE … WHERE p`. -/
def delete (t : Table key) (p : ρ → Prop) [DecidablePred p] : Table key where
  rows := t.rows.filter fun r => ¬p r
  nodup := t.nodup.sublist (List.filter_sublist.map key)

/-- The rows `t'` has beyond those of `t`, for a `t'` got from `t` by updates and inserts. -/
def added (t t' : Table key) : List ρ := t'.rows.drop t.rows.length

/-! ## Reading -/

/-- Nothing is selected from an empty table. -/
@[simp] theorem select_empty (p : ρ → Prop) [DecidablePred p] :
    (empty : Table key).select p = [] := rfl

/-- What is selected are the rows that match. -/
theorem mem_select {t : Table key} {p : ρ → Prop} [DecidablePred p] {r : ρ} :
    r ∈ t.select p ↔ r ∈ t.rows ∧ p r := by
  simp [select]

/-- Two rows of one table with the same key are the same row. -/
theorem eq_of_key_eq {t : Table key} {r r' : ρ} (h : r ∈ t.rows) (h' : r' ∈ t.rows)
    (hk : key r = key r') : r = r' :=
  List.inj_on_of_nodup_map t.nodup h h' hk

section Get

variable [DecidableEq κ] {t : Table key} {k : κ} {r : ρ}

/-- An empty table has no row. -/
@[simp] theorem get_empty (k : κ) : (empty : Table key).get k = none := rfl

/-- `get k` finds exactly the row of the table whose key is `k`. -/
theorem get_eq_some_iff : t.get k = some r ↔ r ∈ t.rows ∧ key r = k := by
  constructor
  · intro h
    exact ⟨List.mem_of_find?_eq_some h, by simpa using List.find?_some h⟩
  · rintro ⟨hr, rfl⟩
    cases hf : t.rows.find? (fun r' => key r' = key r) with
    | none =>
      have := List.find?_eq_none.mp hf r hr
      simp at this
    | some r' =>
      have hk : key r' = key r := by simpa using List.find?_some hf
      rw [get, hf, eq_of_key_eq (List.mem_of_find?_eq_some hf) hr hk]

/-- No row has the key exactly when none is found. -/
theorem get_eq_none_iff : t.get k = none ↔ ∀ r ∈ t.rows, key r ≠ k := by
  simp [get, List.find?_eq_none]

/-- A row that is found is in the table. -/
theorem mem_of_get (h : t.get k = some r) : r ∈ t.rows := (get_eq_some_iff.mp h).1

/-- A row is found under its key. -/
theorem key_of_get (h : t.get k = some r) : key r = k := (get_eq_some_iff.mp h).2

/-- A row of the table is found. -/
theorem get_key (h : r ∈ t.rows) : t.get (key r) = some r := get_eq_some_iff.mpr ⟨h, rfl⟩

/-- A key is new to the table exactly when no row is found under it. -/
theorem key_mem_iff : k ∈ t.rows.map key ↔ t.get k ≠ none := by
  rw [ne_eq, get_eq_none_iff, List.mem_map]
  push Not
  rfl

end Get

/-- The rows under one key: the row `get` finds, if there is one. -/
theorem filter_key [DecidableEq κ] (t : Table key) (k : κ) :
    t.rows.filter (fun r => key r = k) = (t.get k).toList := by
  have hnd := t.nodup
  rw [get]
  generalize t.rows = rows at hnd
  induction rows with
  | nil => rfl
  | cons r rs ih =>
    rw [List.map_cons, List.nodup_cons] at hnd
    by_cases hk : key r = k
    · have hnil : rs.filter (fun r' => key r' = k) = [] := by
        refine List.filter_eq_nil_iff.mpr fun r' hr' => ?_
        have hne : key r' ≠ k := fun he => hnd.1 (hk ▸ he ▸ List.mem_map_of_mem hr')
        simpa using hne
      rw [List.filter_cons_of_pos (by simpa using hk), List.find?_cons_of_pos (by simpa using hk),
        hnil]
      rfl
    · rw [List.filter_cons_of_neg (by simpa using hk), List.find?_cons_of_neg (by simpa using hk)]
      exact ih hnd.2

/-! ## Updating -/

section Update

variable {t : Table key} {p : ρ → Prop} [DecidablePred p] {f : ρ → ρ} {hf : ∀ r, key (f r) = key r}

/-- The rows after an update. -/
@[simp] theorem rows_update :
    (t.update p f hf).rows = t.rows.map fun r => if p r then f r else r := rfl

/-- An update leaves the number of rows. -/
@[simp] theorem length_update : (t.update p f hf).rows.length = t.rows.length := by
  simp

/-- **An update, one row at a time**: the row under `k` is rewritten when the clause matches it
and is left as it was otherwise. -/
theorem get_update [DecidableEq κ] (k : κ) :
    (t.update p f hf).get k = (t.get k).map fun r => if p r then f r else r := by
  have hkey : ∀ r, key (if p r then f r else r) = key r := by
    intro r
    split
    · exact hf r
    · rfl
  rw [get, get, rows_update, List.find?_map]
  simp only [Function.comp_def, hkey]

/-- A row after an update was one before. -/
theorem mem_update {r : ρ} :
    r ∈ (t.update p f hf).rows ↔ ∃ r₀ ∈ t.rows, (if p r₀ then f r₀ else r₀) = r := by
  simp

end Update

/-- An update whose clause matches no row leaves the table as it is. -/
theorem update_of_no_match {t : Table key} {p : ρ → Prop} [DecidablePred p] {f : ρ → ρ}
    {hf : ∀ r, key (f r) = key r} (h : ∀ r ∈ t.rows, ¬ p r) : t.update p f hf = t := by
  cases t with
  | mk rows nodup =>
    have hid : (rows.map fun r => if p r then f r else r) = rows :=
      (List.map_congr_left fun r hr => if_neg (h r hr)).trans (List.map_id' rows)
    simp only [update, hid]

/-- A clause that pins the primary key to `k` matches one row when the row under `k` satisfies it,
and none otherwise. -/
theorem rowcount_eq_one_iff [DecidableEq κ] {t : Table key} {p : ρ → Prop} [DecidablePred p]
    {k : κ} (hp : ∀ r, p r → key r = k) :
    t.rowcount p = 1 ↔ ∃ r, t.get k = some r ∧ p r := by
  constructor
  · intro h
    have hpos : 0 < t.rowcount p := by omega
    obtain ⟨r, hr, hpr⟩ := List.countP_pos_iff.mp hpos
    have hpr : p r := by simpa using hpr
    exact ⟨r, get_eq_some_iff.mpr ⟨hr, hp r hpr⟩, hpr⟩
  · rintro ⟨r, hg, hpr⟩
    obtain ⟨hr, hk⟩ := get_eq_some_iff.mp hg
    have hle : t.rowcount p ≤ 1 := by
      have hcount : t.rowcount p ≤ (t.rows.map key).count k := by
        rw [rowcount, List.count, List.countP_map]
        refine List.countP_mono_left fun r' _ h' => ?_
        simpa using hp r' (by simpa using h')
      exact Nat.le_trans hcount (List.nodup_iff_count_le_one.mp t.nodup k)
    have hpos : 0 < t.rowcount p := List.countP_pos_iff.mpr ⟨r, hr, by simpa using hpr⟩
    omega

/-- A clause that pins the primary key to `k` selects at most the row under `k`. -/
theorem head?_select [DecidableEq κ] {t : Table key} {p : ρ → Prop} [DecidablePred p] {k : κ}
    (hp : ∀ r, p r → key r = k) : (t.select p).head? = (t.get k).filter (p ·) := by
  rw [select, List.head?_filter]
  cases hg : t.get k with
  | none =>
    refine List.find?_eq_none.mpr fun r hr hpr => ?_
    exact get_eq_none_iff.mp hg r hr (hp r (by simpa using hpr))
  | some r =>
    obtain ⟨hr, hk⟩ := get_eq_some_iff.mp hg
    by_cases hpr : p r
    · cases hf : t.rows.find? (p ·) with
      | none => exact absurd (List.find?_eq_none.mp hf r hr) (by simpa using hpr)
      | some r' =>
        have hp' : p r' := by simpa using List.find?_some hf
        rw [eq_of_key_eq (List.mem_of_find?_eq_some hf) hr ((hp r' hp').trans hk.symm)]
        simp [Option.filter_some, hpr]
    · have hnone : t.rows.find? (p ·) = none := by
        refine List.find?_eq_none.mpr fun r' hr' hpr' => hpr ?_
        have hp' : p r' := by simpa using hpr'
        rwa [← eq_of_key_eq hr' hr ((hp r' hp').trans hk.symm)]
      rw [hnone]
      simp [Option.filter_some, hpr]

/-! ## Deleting -/

/-- What is not deleted are the rows that do not match. -/
@[simp] theorem mem_delete {t : Table key} {p : ρ → Prop} [DecidablePred p] {r : ρ} :
    r ∈ (t.delete p).rows ↔ r ∈ t.rows ∧ ¬p r := by
  simp [delete]

/-- A clause keeps the rows it matched when none of them is deleted. -/
theorem select_delete_of_disjoint {t : Table key} {p q : ρ → Prop} [DecidablePred p]
    [DecidablePred q] (h : ∀ r ∈ t.rows, q r → ¬p r) : (t.delete p).select q = t.select q := by
  rw [select, select, delete, List.filter_filter]
  refine List.filter_congr fun r hr => ?_
  by_cases hq : q r
  · simp [hq, h r hr hq]
  · simp [hq]

/-! ## Inserting -/

section Insert

variable [DecidableEq κ] {t : Table key} {r : ρ}

/-- A row with a new key is the last one. -/
theorem rows_insert_of_new (h : t.get (key r) = none) : (t.insert r).rows = t.rows ++ [r] := by
  have hn : key r ∉ t.rows.map key := by
    rw [key_mem_iff]
    simp [h]
  rw [insert, dif_neg hn]

/-- A row whose key is taken is not inserted. -/
theorem insert_of_taken {r₀ : ρ} (h : t.get (key r) = some r₀) : t.insert r = t := by
  have hm : key r ∈ t.rows.map key := by
    rw [key_mem_iff]
    simp [h]
  rw [insert, dif_pos hm]

/-- **An insert, one row at a time**: the rows already there stay, and under the new row's key
stands the new row when the key was free. -/
theorem get_insert (k : κ) :
    (t.insert r).get k = (t.get k).or (if key r = k then some r else none) := by
  cases hg : t.get (key r) with
  | some r₀ =>
    rw [insert_of_taken hg]
    by_cases hk : key r = k
    · subst hk
      simp [hg]
    · simp [hk]
  | none =>
    rw [get, rows_insert_of_new hg, List.find?_append]
    congr 1
    by_cases hk : key r = k <;> simp [hk]

/-- A row is still found under its key when rows are appended. -/
theorem get_of_append {t' : Table key} {rows : List ρ} (h : t'.rows = t.rows ++ rows) {k : κ}
    {r₀ : ρ} (hr : t.get k = some r₀) : t'.get k = some r₀ := by
  obtain ⟨hm, hk⟩ := get_eq_some_iff.mp hr
  exact get_eq_some_iff.mpr ⟨h ▸ List.mem_append_left _ hm, hk⟩

/-- Inserting rows only appends. -/
theorem rows_insertAll (t : Table key) (rs : List ρ) :
    ∃ rows, (t.insertAll rs).rows = t.rows ++ rows := by
  induction rs generalizing t with
  | nil => exact ⟨[], by simp [insertAll]⟩
  | cons r rs ih =>
    obtain ⟨rows, hrows⟩ := ih (t.insert r)
    rw [insertAll, List.foldl_cons, ← insertAll, hrows]
    cases hg : t.get (key r) with
    | none => exact ⟨r :: rows, by rw [rows_insert_of_new hg, List.append_assoc]; rfl⟩
    | some r₀ => exact ⟨rows, by rw [insert_of_taken hg]⟩

/-- Inserting rows with distinct new keys appends them all. -/
theorem rows_insertAll_of_new {rs : List ρ} (hnd : (rs.map key).Nodup)
    (hnew : ∀ r ∈ rs, t.get (key r) = none) : (t.insertAll rs).rows = t.rows ++ rs := by
  induction rs generalizing t with
  | nil => simp [insertAll]
  | cons r rs ih =>
    rw [List.map_cons, List.nodup_cons] at hnd
    have hr : t.get (key r) = none := hnew r (List.mem_cons_self ..)
    have hnew' : ∀ r' ∈ rs, (t.insert r).get (key r') = none := by
      intro r' hr'
      have hne : key r ≠ key r' := fun he => hnd.1 (he ▸ List.mem_map_of_mem hr')
      rw [get_insert, hnew r' (List.mem_cons_of_mem _ hr'), if_neg hne]
      rfl
    have := ih (t := t.insert r) hnd.2 hnew'
    rw [insertAll, List.foldl_cons, ← insertAll, this, rows_insert_of_new hr]
    simp

end Insert

end Table

end Jasil
