import Mathlib.Data.Finset.Card
import Mathlib.Data.List.AList

/-! # Finite maps
What a map looks up after keys are dropped from it: those that fail a test, or those of a list, which may name a
key twice and may be worked off in batches.

* **`lookup_retain`**: a test drops what fails it.
* **`lookup_eraseAll`, `card_eraseAll`**: a list of keys is erased, and each key that was there is counted once.
* **`eraseBatches_eq`**: batches change nothing. -/

namespace Jasil

variable {κ β : Type*} [DecidableEq κ]

/-- A finite map. -/
abbrev FiniteMap (κ β : Type*) := AList fun _ : κ => β

namespace FiniteMap

variable {s : FiniteMap κ β} {k : κ} {keys : List κ}

/-- What passes the test. -/
def retain (p : κ → β → Bool) (s : FiniteMap κ β) : FiniteMap κ β where
  entries := s.entries.filter fun e => p e.1 e.2
  nodupKeys := s.nodupKeys.sublist List.filter_sublist

/-- What is retained was there, and passes. -/
theorem mem_retain_entries {p : κ → β → Bool} {b : β} :
    b ∈ (s.retain p).lookup k ↔ b ∈ s.lookup k ∧ p k b = true := by
  rw [AList.mem_lookup_iff, AList.mem_lookup_iff, retain, List.mem_filter]

/-- A key is looked up in what is retained. -/
theorem lookup_retain (p : κ → β → Bool) (s : FiniteMap κ β) (k : κ) :
    (s.retain p).lookup k = (s.lookup k).filter (p k) := by
  apply Option.ext
  intro b
  rw [← Option.mem_def, mem_retain_entries, Option.filter_eq_some_iff, Option.mem_def]

/-- A key that is there has a value. -/
theorem mem_iff_lookup : k ∈ s ↔ ∃ b, s.lookup k = some b := by
  rw [← AList.lookup_isSome, Option.isSome_iff_exists]

/-! ## Erasing several keys -/

/-- How many of the keys were there, and what is left. -/
def eraseAll : List κ → FiniteMap κ β → ℕ × FiniteMap κ β
  | [], s => (0, s)
  | k :: keys, s =>
    let (count, left) := eraseAll keys (s.erase k)
    (count + (if k ∈ s then 1 else 0), left)

/-- A key is looked up after others were erased. -/
theorem lookup_eraseAll (keys : List κ) (s : FiniteMap κ β) (k : κ) :
    (eraseAll keys s).2.lookup k = if k ∈ keys then none else s.lookup k := by
  induction keys generalizing s with
  | nil =>
    rw [if_neg List.not_mem_nil]
    rfl
  | cons key keys ih =>
    show (eraseAll keys (s.erase key)).2.lookup k = _
    rw [ih]
    by_cases hk : k = key
    · subst hk
      rw [if_pos List.mem_cons_self, AList.lookup_erase, ite_self]
    · rw [AList.lookup_erase_ne hk]
      by_cases hmem : k ∈ keys
      · rw [if_pos hmem, if_pos (List.mem_cons_of_mem _ hmem)]
      · rw [if_neg hmem, if_neg (List.not_mem_cons_of_ne_of_not_mem hk hmem)]

/-- **Each key that is there is counted once**, however often it is named. -/
theorem card_eraseAll (keys : List κ) (s : FiniteMap κ β) :
    (eraseAll keys s).1 = {k ∈ keys.toFinset | k ∈ s}.card := by
  induction keys generalizing s with
  | nil => rfl
  | cons key keys ih =>
    show (eraseAll keys (s.erase key)).1 + (if key ∈ s then 1 else 0) = _
    rw [ih, List.toFinset_cons, Finset.filter_insert]
    -- of the others, what is there before is there after
    have hothers : {k ∈ keys.toFinset | k ∈ s.erase key} = {k ∈ keys.toFinset | k ∈ s}.erase key := by
      ext k
      rw [Finset.mem_filter, Finset.mem_erase, Finset.mem_filter, AList.mem_erase]
      exact and_left_comm
    rw [hothers]
    by_cases hkey : key ∈ s
    · rw [if_pos hkey, if_pos hkey, Finset.card_insert_eq_ite]
      by_cases hagain : key ∈ {k ∈ keys.toFinset | k ∈ s}
      · rw [if_pos hagain, Finset.card_erase_add_one hagain]
      · rw [if_neg hagain, Finset.erase_eq_of_notMem hagain]
    · rw [if_neg hkey, if_neg hkey, Nat.add_zero, Finset.erase_eq_of_notMem]
      exact fun hagain => hkey (Finset.mem_filter.mp hagain).2

/-- Erasing the keys of two lists. -/
theorem eraseAll_append (keys keys' : List κ) (s : FiniteMap κ β) :
    eraseAll (keys ++ keys') s = ((eraseAll keys s).1 + (eraseAll keys' (eraseAll keys s).2).1,
      (eraseAll keys' (eraseAll keys s).2).2) := by
  induction keys generalizing s with
  | nil =>
    rw [List.nil_append, eraseAll, Nat.zero_add]
  | cons key keys ih =>
    show ((eraseAll (keys ++ keys') (s.erase key)).1 + _, (eraseAll (keys ++ keys') (s.erase key)).2) = _
    rw [ih]
    show (_ + _ + _, _) = ((eraseAll keys (s.erase key)).1 + _ + _, _)
    rw [Nat.add_right_comm]
    rfl

/-- `for start in range(0, len(keys), size)`, with the count so far. -/
def eraseBatches (size : ℕ) (keys : List κ) (s : FiniteMap κ β) : ℕ × FiniteMap κ β :=
  (List.range ((keys.length + size - 1) / size)).foldl (fun (count, left) i =>
    let (more, left) := eraseAll ((keys.drop (i * size)).take size) left
    (count + more, left)) (0, s)

/-- **Keys erased in batches are erased.** -/
theorem eraseBatches_eq {size : ℕ} (hsize : 0 < size) (keys : List κ) (s : FiniteMap κ β) :
    eraseBatches size keys s = eraseAll keys s := by
  have hfold (n : ℕ) : (List.range n).foldl (fun (count, left) i =>
      let (more, left) := eraseAll ((keys.drop (i * size)).take size) left
      (count + more, left)) (0, s) = eraseAll (keys.take (n * size)) s := by
    induction n with
    | zero =>
      rw [Nat.zero_mul, List.take_zero]
      rfl
    | succ n ih =>
      rw [List.range_succ, List.foldl_append, ih, Nat.succ_mul, List.take_add, eraseAll_append]
      rfl
  have hall : keys.length ≤ (keys.length + size - 1) / size * size := by
    have hdiv := Nat.div_add_mod (keys.length + size - 1) size
    have hmod := Nat.mod_lt (keys.length + size - 1) hsize
    rw [Nat.mul_comm] at hdiv
    omega
  rw [eraseBatches, hfold, List.take_of_length_le hall]

end FiniteMap

end Jasil
