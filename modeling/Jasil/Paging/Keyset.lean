import Mathlib.Data.List.Perm.Subperm
import Mathlib.Data.List.Sort
import Mathlib.Tactic.Ring

/-! # Keyset pagination
A listing in pages, the greatest key first: a page is the rows below a bound, one row more than fits is
read to see whether more follow, and the key of the last row is the bound of the next page. Between two
reads the rows may change, as long as every key stays.

* **`pageOf`**: one page, with the cursor of the next.
* **`follow`**: read page after page, each from the rows as they then are.
* **`Complete`**: whatever is inserted meanwhile, no key is shown twice, and when the last page is
  reached every key that was there when the first page was read has been shown; over rows that stay the
  same the last page is reached, and the pages are the rows in order.
* **`Listing.complete`**: a listing whose cursors ask for what comes after a row is complete. -/

namespace Jasil

namespace Keyset

variable {ρ κ γ ε : Type*}

/-- A page, with the cursor of the next one when there is one. -/
structure Page (ρ γ : Type*) where
  rows : List ρ
  nextCursor : Option γ

/-- Read at most `n` pages, the first of them with `cursor`: `read k` is the `k`-th read. -/
def follow (read : ℕ → Option γ → Except ε (Page ρ γ)) :
    ℕ → ℕ → Option γ → Except ε (List (Page ρ γ))
  | 0, _, _ => .ok []
  | n + 1, k, cursor =>
    match read k cursor with
    | .error e => .error e
    | .ok page =>
      match page.nextCursor with
      | none => .ok [page]
      | some next => (follow read n (k + 1) (some next)).map (page :: ·)

/-- The last page was reached. -/
def Ended (pages : List (Page ρ γ)) : Prop := ∃ page ∈ pages.getLast?, page.nextCursor = none

/-- The rows of the pages, in the order in which they are shown. -/
def shown (pages : List (Page ρ γ)) : List ρ := pages.flatMap Page.rows

/-- No page shows no row. -/
@[simp] theorem shown_nil : shown ([] : List (Page ρ γ)) = [] := rfl

/-- A page more shows its rows. -/
@[simp] theorem shown_cons (page : Page ρ γ) (pages : List (Page ρ γ)) :
    shown (page :: pages) = page.rows ++ shown pages := rfl

/-- No listing has ended before its first page. -/
theorem not_ended_nil : ¬Ended ([] : List (Page ρ γ)) := by simp [Ended]

/-- A page with a successor does not end a listing. -/
theorem ended_cons_iff {page : Page ρ γ} (h : page.nextCursor ≠ none) (pages : List (Page ρ γ)) :
    Ended (page :: pages) ↔ Ended pages := by
  cases pages with
  | nil => simp [Ended, h]
  | cons p ps => simp [Ended, List.getLast?_cons_cons]

variable [LinearOrder κ] (key : ρ → κ)

/-- The rows that come after the bound. -/
def After (bound : Option κ) (r : ρ) : Prop := ∀ k ∈ bound, key r < k

instance (bound : Option κ) (r : ρ) : Decidable (After key bound r) :=
  inferInstanceAs (Decidable (∀ k ∈ bound, key r < k))

/-- The greatest key first. -/
def newestFirst (rows : List ρ) : List ρ := rows.insertionSort fun r s => key s ≤ key r

/-- What comes after the bound, the greatest key first. -/
def rest (rows : List ρ) (bound : Option κ) : List ρ :=
  newestFirst key (rows.filter (After key bound ·))

/-- One page of at most `limit` rows; `mark` writes the cursor that asks for what follows a row. -/
def pageOf (mark : ρ → γ) (limit : ℕ) (rows : List ρ) (bound : Option κ) : Page ρ γ :=
  let found := (rest key rows bound).take (limit + 1)
  let entries := found.take limit
  ⟨entries, if limit < found.length then entries.getLast?.map mark else none⟩

/-! ## One page -/

section Page

/-- A listing has the rows of the table. -/
theorem perm_newestFirst (rows : List ρ) : (newestFirst key rows).Perm rows :=
  List.perm_insertionSort _ rows

variable {key} {rows : List ρ} {mark : ρ → γ} {limit : ℕ}

/-- It has each of them. -/
theorem mem_newestFirst {r : ρ} : r ∈ newestFirst key rows ↔ r ∈ rows :=
  (perm_newestFirst key rows).mem_iff

/-- What is left are the rows after the bound. -/
theorem mem_rest {bound : Option κ} {r : ρ} : r ∈ rest key rows bound ↔ r ∈ rows ∧ After key bound r := by
  simp [rest, mem_newestFirst]

/-- Sorted by distinct keys, the keys are strictly descending. -/
theorem pairwise_newestFirst (h : (rows.map key).Nodup) :
    (newestFirst key rows).Pairwise fun r s => key s < key r := by
  have hsorted : (newestFirst key rows).Pairwise fun r s => key s ≤ key r := by
    have : IsTrans ρ fun r s => key s ≤ key r := ⟨fun _ _ _ h h' => le_trans h' h⟩
    have : Std.Total fun r s : ρ => key s ≤ key r := ⟨fun r s => le_total (key s) (key r)⟩
    exact List.pairwise_insertionSort _ rows
  have hne : (newestFirst key rows).Pairwise fun r s => key r ≠ key s := by
    have hnd := ((perm_newestFirst key rows).map key).nodup_iff.mpr h
    exact List.pairwise_map.mp hnd
  exact (hsorted.and hne).imp fun h => lt_of_le_of_ne h.1 h.2.symm

/-- They are in the order of the listing. -/
theorem pairwise_rest (h : (rows.map key).Nodup) (bound : Option κ) :
    (rest key rows bound).Pairwise fun r s => key s < key r :=
  pairwise_newestFirst (h.sublist (List.filter_sublist.map key))

variable {bound : Option κ}

/-- A page has the first of what is left. -/
theorem rows_pageOf :
    (pageOf key mark limit rows bound).rows = (rest key rows bound).take limit := by
  rw [pageOf, List.take_take, Nat.min_eq_left (Nat.le_succ limit)]

/-- A page has a cursor exactly when something is left after it. -/
theorem nextCursor_pageOf :
    (pageOf key mark limit rows bound).nextCursor
      = if limit < (rest key rows bound).length then
          ((rest key rows bound).take limit).getLast?.map mark
        else none := by
  have hlen : limit < ((rest key rows bound).take (limit + 1)).length
      ↔ limit < (rest key rows bound).length := by
    rw [List.length_take]
    omega
  simp only [pageOf, List.take_take, Nat.min_eq_left (Nat.le_succ limit), hlen]

/-- The last page shows all that comes after the bound. -/
theorem rows_of_last (hlast : (pageOf key mark limit rows bound).nextCursor = none)
    (hlimit : 0 < limit) : (pageOf key mark limit rows bound).rows = rest key rows bound := by
  rw [rows_pageOf]
  apply List.take_of_length_le
  by_contra hlt
  rw [nextCursor_pageOf, if_pos (by omega), Option.map_eq_none_iff, List.getLast?_eq_none_iff,
    List.take_eq_nil_iff] at hlast
  rcases hlast with h | h
  · omega
  · rw [h] at hlt
    exact hlt (Nat.zero_le _)

/-- A page that is not the last is full, and its cursor is that of its last row, a row that nothing
still to be shown comes before. -/
theorem of_next {next : γ} (hnext : (pageOf key mark limit rows bound).nextCursor = some next)
    (hnd : (rows.map key).Nodup) :
    ∃ r ∈ rows, next = mark r ∧ After key bound r
      ∧ (pageOf key mark limit rows bound).rows.length = limit
      ∧ (∀ s ∈ (pageOf key mark limit rows bound).rows, key r ≤ key s)
      ∧ ∀ s ∈ rows, After key bound s →
          s ∈ (pageOf key mark limit rows bound).rows ∨ key s < key r := by
  rw [nextCursor_pageOf] at hnext
  split at hnext
  swap
  · exact nomatch hnext
  rename_i hlt
  obtain ⟨r, hr, rfl⟩ := Option.map_eq_some_iff.mp hnext
  have hsorted := pairwise_rest hnd bound
  rw [rows_pageOf]
  obtain ⟨init, hinit⟩ := List.getLast?_eq_some_iff.mp hr
  have hsplit := List.take_append_drop limit (rest key rows bound)
  rw [← hsplit, List.pairwise_append] at hsorted
  obtain ⟨hshown, -, hbelow⟩ := hsorted
  -- the cursor is that of the last row shown
  have hmem : r ∈ (rest key rows bound).take limit := List.mem_of_getLast? hr
  obtain ⟨hrows, hafter⟩ := mem_rest.mp (List.mem_of_mem_take hmem)
  refine ⟨r, hrows, rfl, hafter, ?_, ?_, ?_⟩
  · rw [List.length_take]
    omega
  · intro s hs
    rw [hinit] at hs hshown
    rcases List.mem_append.mp hs with hs | hs
    · exact le_of_lt ((List.pairwise_append.mp hshown).2.2 s hs r (by simp))
    · rw [List.mem_singleton.mp hs]
  · intro s hs hsafter
    have hs' : s ∈ rest key rows bound := mem_rest.mpr ⟨hs, hsafter⟩
    rw [← hsplit] at hs'
    rcases List.mem_append.mp hs' with h | h
    · exact .inl h
    · exact .inr (hbelow r hmem s h)

end Page

/-! ## Page after page -/

section Follow

variable {key}

/-- `read` is a keyset listing of `rows k`, the rows at its `k`-th read. -/
structure Listing (key : ρ → κ) (mark : ρ → γ) (limit : ℕ)
    (read : ℕ → Option γ → Except ε (Page ρ γ)) (rows : ℕ → List ρ) : Prop where
  limit_pos : 0 < limit
  first : read 0 none = .ok (pageOf key mark limit (rows 0) none)
  /-- The cursor of a row, whenever it was written, asks for what comes after its key. -/
  next : ∀ j k, ∀ r ∈ rows j,
    read k (some (mark r)) = .ok (pageOf key mark limit (rows k) (some (key r)))
  distinct : ∀ k, ((rows k).map key).Nodup
  /-- No key is lost between two reads. -/
  kept : ∀ k, ∀ r ∈ rows k, ∃ r' ∈ rows (k + 1), key r' = key r

variable {mark : ρ → γ} {limit : ℕ} {read : ℕ → Option γ → Except ε (Page ρ γ)} {rows : ℕ → List ρ}

/-- What pages read from the `k`-th read on show of the rows after `bound`. -/
structure Shows (key : ρ → κ) (limit : ℕ) (rows : ℕ → List ρ) (n k : ℕ) (bound : Option κ)
    (pages : List (Page ρ γ)) : Prop where
  descending : (shown pages).Pairwise fun r s => key s < key r
  after : ∀ r ∈ shown pages, After key bound r
  from_rows : ∀ r ∈ shown pages, ∃ j, r ∈ rows j
  complete : Ended pages → ∀ r ∈ rows k, After key bound r → ∃ r' ∈ shown pages, key r' = key r
  full : ¬Ended pages → pages.length = n ∧ (shown pages).length = n * limit

/-- A page that is the last shows all there is. -/
theorem shows_last (h : Listing key mark limit read rows) {k : ℕ} {bound : Option κ} {n : ℕ}
    (hlast : (pageOf key mark limit (rows k) bound).nextCursor = none) :
    Shows key limit rows n k bound [pageOf key mark limit (rows k) bound] := by
  have hrows := rows_of_last hlast h.limit_pos
  have hended : Ended [pageOf key mark limit (rows k) bound] := ⟨_, rfl, hlast⟩
  refine ⟨?_, ?_, ?_, ?_, fun hn => absurd hended hn⟩
  all_goals simp only [shown_cons, shown_nil, List.append_nil, hrows]
  · exact pairwise_rest (h.distinct k) bound
  · exact fun r hr => (mem_rest.mp hr).2
  · exact fun r hr => ⟨k, (mem_rest.mp hr).1⟩
  · exact fun _ r hr hafter => ⟨r, mem_rest.mpr ⟨hr, hafter⟩, rfl⟩

/-- A page that is not the last, and the pages that follow its cursor. -/
theorem shows_cons (h : Listing key mark limit read rows) {k : ℕ} {bound : Option κ} {n : ℕ}
    {next : γ} (hnext : (pageOf key mark limit (rows k) bound).nextCursor = some next) {r : ρ}
    (hafter : After key bound r)
    (hlen : (pageOf key mark limit (rows k) bound).rows.length = limit)
    (hge : ∀ s ∈ (pageOf key mark limit (rows k) bound).rows, key r ≤ key s)
    (hsplit : ∀ s ∈ rows k, After key bound s →
      s ∈ (pageOf key mark limit (rows k) bound).rows ∨ key s < key r)
    {pages : List (Page ρ γ)} (hpages : Shows key limit rows n (k + 1) (some (key r)) pages) :
    Shows key limit rows (n + 1) k bound (pageOf key mark limit (rows k) bound :: pages) := by
  have hbelow : ∀ s ∈ shown pages, key s < key r :=
    fun s hs => hpages.after s hs _ rfl
  have hne : (pageOf key mark limit (rows k) bound).nextCursor ≠ none := by
    rw [hnext]
    exact nofun
  have hcons := ended_cons_iff hne pages
  have hpage : ∀ s ∈ (pageOf key mark limit (rows k) bound).rows,
      s ∈ rows k ∧ After key bound s := by
    intro s hs
    rw [rows_pageOf] at hs
    exact mem_rest.mp (List.mem_of_mem_take hs)
  refine ⟨?_, ?_, ?_, ?_, ?_⟩
  · rw [shown_cons, List.pairwise_append]
    refine ⟨?_, hpages.descending, fun s hs t ht => lt_of_lt_of_le (hbelow t ht) (hge s hs)⟩
    rw [rows_pageOf]
    exact (pairwise_rest (h.distinct k) bound).sublist (List.take_sublist _ _)
  · intro s hs
    rcases List.mem_append.mp hs with hs | hs
    · exact (hpage s hs).2
    · exact fun b hb => lt_trans (hbelow s hs) (hafter b hb)
  · intro s hs
    rcases List.mem_append.mp hs with hs | hs
    · exact ⟨k, (hpage s hs).1⟩
    · exact hpages.from_rows s hs
  · intro hended s hs hsafter
    rcases hsplit s hs hsafter with hin | hlt
    · exact ⟨s, List.mem_append_left _ hin, rfl⟩
    · -- Its key is still there at the next read, below the bound of that page.
      obtain ⟨s', hs', hkey⟩ := h.kept k s hs
      obtain ⟨t, ht, htkey⟩ := hpages.complete (hcons.mp hended) s' hs' (by
        rintro b ⟨⟩
        rwa [hkey])
      exact ⟨t, List.mem_append_right _ ht, htkey.trans hkey⟩
  · intro hended
    obtain ⟨hn, hcount⟩ := hpages.full (mt hcons.mpr hended)
    rw [shown_cons, List.length_append, List.length_cons, hlen, hn, hcount]
    exact ⟨rfl, by ring⟩

/-- Reading on from a bound. -/
theorem follow_from (h : Listing key mark limit read rows) (n : ℕ) {k : ℕ} {cursor : Option γ}
    {bound : Option κ} (hread : read k cursor = .ok (pageOf key mark limit (rows k) bound)) :
    ∃ pages, follow read n k cursor = .ok pages ∧ Shows key limit rows n k bound pages := by
  induction n generalizing k cursor bound with
  | zero =>
    refine ⟨[], rfl, List.Pairwise.nil, nofun, nofun, fun h => absurd h not_ended_nil, fun _ => ?_⟩
    simp
  | succ n ih =>
    rw [follow, hread]
    dsimp only
    split
    · rename_i hlast
      exact ⟨_, rfl, shows_last h hlast⟩
    · rename_i next hnext
      obtain ⟨r, hr, rfl, hafter, hlen, hge, hsplit⟩ := of_next hnext (h.distinct k)
      obtain ⟨pages, hpages, hshows⟩ := ih (h.next k (k + 1) r hr)
      rw [hpages]
      exact ⟨_, rfl, shows_cons h hnext hafter hlen hge hsplit hshows⟩

/-- **Reading page after page while rows are inserted**: no read fails, no key is shown twice, and at
the end of the listing every key there was at the first read has been shown. -/
theorem follow_spec (h : Listing key mark limit read rows) (n : ℕ) :
    ∃ pages, follow read n 0 none = .ok pages
      ∧ ((shown pages).Pairwise fun r s => key s < key r)
      ∧ (∀ r ∈ shown pages, ∃ j, r ∈ rows j)
      ∧ (Ended pages → ∀ r ∈ rows 0, ∃ r' ∈ shown pages, key r' = key r) := by
  obtain ⟨pages, hpages, hshows⟩ := follow_from h n h.first
  exact ⟨pages, hpages, hshows.descending, hshows.from_rows,
    fun hended r hr => hshows.complete hended r hr nofun⟩

/-- A listing whose rows have finitely many keys in all comes to its end. -/
theorem ended_of_finite (h : Listing key mark limit read rows) {all : List ρ}
    (hall : ∀ k, ∀ r ∈ rows k, ∃ r' ∈ all, key r' = key r) {n : ℕ} (hn : all.length < n)
    {pages : List (Page ρ γ)} (hshows : Shows key limit rows n 0 none pages) : Ended pages := by
  -- Otherwise more keys would have been shown than there are.
  by_contra hnot
  obtain ⟨-, hcount⟩ := hshows.full hnot
  have hnodup : ((shown pages).map key).Nodup :=
    List.pairwise_map.mpr (hshows.descending.imp fun h => (ne_of_lt h).symm)
  have hsub : ∀ k ∈ (shown pages).map key, k ∈ all.map key := by
    intro k hk
    obtain ⟨r, hr, rfl⟩ := List.mem_map.mp hk
    obtain ⟨j, hj⟩ := hshows.from_rows r hr
    obtain ⟨r', hr', hkey⟩ := hall j r hj
    exact List.mem_map.mpr ⟨r', hr', hkey⟩
  have hle := (hnodup.subperm hsub).length_le
  rw [List.length_map, List.length_map] at hle
  have := Nat.le_mul_of_pos_right n h.limit_pos
  omega

/-- Once no more rows are inserted, the listing comes to its end. -/
theorem follow_ends (h : Listing key mark limit read rows) {m : ℕ}
    (hstop : ∀ k, m ≤ k → rows k = rows m) {n : ℕ} (hn : (rows m).length < n) :
    ∃ pages, follow read n 0 none = .ok pages ∧ Ended pages := by
  have hkept (i k : ℕ) : ∀ r ∈ rows k, ∃ r' ∈ rows (k + i), key r' = key r := by
    induction i with
    | zero => exact fun r hr => ⟨r, hr, rfl⟩
    | succ i ih =>
      intro r hr
      obtain ⟨r', hr', hkey⟩ := ih r hr
      obtain ⟨s, hs, hskey⟩ := h.kept _ r' hr'
      exact ⟨s, hs, hskey.trans hkey⟩
  have hall : ∀ k, ∀ r ∈ rows k, ∃ r' ∈ rows m, key r' = key r := by
    intro k r hr
    obtain ⟨r', hr', hkey⟩ := hkept m k r hr
    rw [hstop (k + m) (Nat.le_add_left m k)] at hr'
    exact ⟨r', hr', hkey⟩
  obtain ⟨pages, hpages, hshows⟩ := follow_from h n h.first
  exact ⟨pages, hpages, ended_of_finite h hall hn hshows⟩

/-- **Reading page after page over rows that stay the same** ends, and shows them in order. -/
theorem follow_static (h : Listing key mark limit read rows) (hsame : ∀ k, rows k = rows 0) {n : ℕ}
    (hn : (rows 0).length < n) :
    ∃ pages, follow read n 0 none = .ok pages ∧ Ended pages
      ∧ shown pages = newestFirst key (rows 0) := by
  obtain ⟨pages, hpages, hshows⟩ := follow_from h n h.first
  have hended : Ended pages :=
    ended_of_finite h (fun k r hr => ⟨r, hsame k ▸ hr, rfl⟩) hn hshows
  have hdistinct := h.distinct 0
  have hnodup : (shown pages).Nodup := hshows.descending.imp fun h heq => by
    rw [heq] at h
    exact lt_irrefl _ h
  have hsub : ∀ r ∈ shown pages, r ∈ rows 0 := by
    intro r hr
    obtain ⟨k, hmem⟩ := hshows.from_rows r hr
    rwa [hsame k] at hmem
  have hall : ∀ r ∈ rows 0, r ∈ shown pages := by
    intro r hr
    obtain ⟨r', hr', hkey⟩ := hshows.complete hended r hr nofun
    rwa [← List.inj_on_of_nodup_map hdistinct (hsub r' hr') hr hkey]
  have hperm : (shown pages).Perm (newestFirst key (rows 0)) :=
    ((List.perm_ext_iff_of_nodup hnodup hdistinct.of_map).mpr fun r => ⟨hsub r, hall r⟩).trans
      (perm_newestFirst key (rows 0)).symm
  refine ⟨pages, hpages, hended, ?_⟩
  exact hperm.eq_of_pairwise (fun _ _ _ _ h h' => absurd h (lt_asymm h')) hshows.descending
    (pairwise_newestFirst hdistinct)

/-- What following the cursors from the first page on shows of `rows k`, the rows at the `k`-th read. -/
structure Complete (key : ρ → κ) (read : ℕ → Option γ → Except ε (Page ρ γ)) (rows : ℕ → List ρ) :
    Prop where
  /-- However many pages are read: no read fails, no key is shown twice, and at the end every key there
  was at the first read has been shown. -/
  once : ∀ n, ∃ pages, follow read n 0 none = .ok pages
    ∧ ((shown pages).Pairwise fun r s => key s < key r)
    ∧ (∀ r ∈ shown pages, ∃ k, r ∈ rows k)
    ∧ (Ended pages → ∀ r ∈ rows 0, ∃ r' ∈ shown pages, key r' = key r)
  /-- The end is reached when the rows stop changing. -/
  ends : ∀ m, (∀ k, m ≤ k → rows k = rows m) →
    ∃ least, ∀ n, least ≤ n → ∃ pages, follow read n 0 none = .ok pages ∧ Ended pages
  /-- Rows that stay the same are shown one by one, in order. -/
  static : (∀ k, rows k = rows 0) →
    ∃ least, ∀ n, least ≤ n → ∃ pages, follow read n 0 none = .ok pages ∧ Ended pages
      ∧ shown pages = newestFirst key (rows 0)

/-- **A keyset listing is complete.** -/
theorem Listing.complete (h : Listing key mark limit read rows) : Complete key read rows where
  once := follow_spec h
  ends _ hstop := ⟨_, fun _ => follow_ends h hstop⟩
  static hsame := ⟨_, fun _ => follow_static h hsame⟩

end Follow

end Keyset

end Jasil
