import Jasil.FiniteMaps.Retained
import Jasil.Text.Utf8Prefixes

/-! # Ephemeral keyed state
The eight calls of a state provider, what they return, and what both backends check first. A key is the list of
its characters. Each backend has a clock of its own: instants are of any type with an order.

* **`Call`, `Reply`**: the calls, and what they return.
* **`Live`**: what is stored and has not expired, which is all that a caller can see. -/

namespace Jasil.State

/-- What is stored. -/
abbrev Bytes := List UInt8

/-- A key, as its code points. -/
abbrev Key := List Char

/-- A value and the instant it expires at. -/
structure Entry (τ : Type) where
  value : Bytes
  expiry : Option τ
  deriving DecidableEq

/-- The class of what a call raises. -/
inductive StateError
  | valueError
  /-- `StateBackendUnavailableError`. -/
  | unavailable
  deriving DecidableEq

/-- The calls of a state backend. -/
inductive Call
  | get (key : Key)
  | set (key : Key) (value : Bytes) (ttlSeconds : Option ℤ)
  | delete (key : Key)
  | incr (key : Key) (amount : ℤ) (ttlSeconds : Option ℤ)
  | setIfAbsent (key : Key) (value : Bytes) (ttlSeconds : Option ℤ)
  | getAndDelete (key : Key)
  | deletePrefix (start : Key)
  | iterKeys (start : Key)
  deriving DecidableEq

/-- What a call returns. The keys of an iteration are a set. -/
inductive Reply
  | value (value : Option Bytes)
  | done
  | number (n : ℤ)
  | stored (stored : Bool)
  | keys (keys : Finset Key)
  deriving DecidableEq

/-- `_check_ttl`. -/
def checkTtl (ttlSeconds : Option ℤ) : Except StateError Unit :=
  if ∃ ttl ∈ ttlSeconds, ttl ≤ 0 then .error .valueError else .ok ()

/-- `_check_prefix`. -/
def checkPrefix (start : Key) : Except StateError Unit :=
  if start = [] then .error .valueError else .ok ()

/-- A TTL that is positive passes. -/
theorem checkTtl_ok {ttlSeconds : Option ℤ} (h : ∀ ttl ∈ ttlSeconds, 0 < ttl) :
    checkTtl ttlSeconds = .ok () := by
  rw [checkTtl, if_neg]
  rintro ⟨ttl, hmem, hle⟩
  exact absurd (h ttl hmem) (not_lt.mpr hle)

/-- Any other one is refused. -/
theorem checkTtl_error {ttlSeconds : Option ℤ} (h : ¬ ∀ ttl ∈ ttlSeconds, 0 < ttl) :
    checkTtl ttlSeconds = .error .valueError := by
  rw [checkTtl, if_pos]
  push Not at h
  exact h

/-- The expiry of a counter after an increment: the one that is asked for, or else the one that it had. -/
def expiryAfter {τ : Type} (asked : Option τ) (found : Option (Entry τ)) : Option τ :=
  asked.or (found.bind Entry.expiry)

/-- `str(number).encode()`. -/
def decimal (n : ℤ) : Bytes := utf8 (toString n).toList

/-! ## What is live -/

/-- The entries that a caller can see. -/
abbrev Live (τ : Type) (κ : Type*) := κ → Option (Entry τ)

/-- Nothing expires at this very instant. -/
def NotHit {τ : Type} {κ : Type*} [DecidableEq κ] (now : τ) (s : FiniteMap κ (Entry τ)) : Prop :=
  ∀ key entry, s.lookup key = some entry → entry.expiry ≠ some now

/-- The entries tell whether the instant is hit. -/
theorem notHit_of_entries {τ : Type} {κ : Type*} [DecidableEq κ] {now : τ} {s : FiniteMap κ (Entry τ)}
    (h : ∀ e ∈ s.entries, e.2.expiry ≠ some now) : NotHit now s := by
  intro key entry hlookup
  exact h ⟨key, entry⟩ (AList.mem_lookup_iff.mp hlookup)

section Instants

variable {τ : Type} [LinearOrder τ]

/-- The entry expires later. -/
def alive (now : τ) (entry : Entry τ) : Bool := entry.expiry.all (now < ·)

/-- What a caller sees of an entry. -/
def seen (now : τ) (entry : Entry τ) : Option (Entry τ) := (some entry).filter (alive now)

variable {κ : Type*} [DecidableEq κ] {now now' : τ}

/-- What is live in a map of entries. -/
def live (now : τ) (s : FiniteMap κ (Entry τ)) : Live τ κ := fun key => (s.lookup key).filter (alive now)

/-- What lives later lives now. -/
theorem alive_of_le {entry : Entry τ} (h : now ≤ now') (halive : alive now' entry = true) :
    alive now entry = true := by
  rw [alive, Option.all_eq_true] at halive ⊢
  intro expiry hexpiry
  have hlt := halive expiry hexpiry
  rw [decide_eq_true_iff] at hlt ⊢
  exact lt_of_le_of_lt h hlt

/-- What is live later is what is live now and still lives then. -/
theorem live_later (h : now ≤ now') (s : FiniteMap κ (Entry τ)) (key : κ) :
    live now' s key = (live now s key).filter (alive now') := by
  rw [live, live, Option.filter_filter]
  congr 1
  funext entry
  cases hentry : alive now' entry with
  | false => rw [Bool.and_false]
  | true => rw [alive_of_le h hentry, Bool.and_true]

/-- An entry that expires later is seen. -/
theorem seen_of_alive {entry : Entry τ} (h : alive now entry = true) : seen now entry = some entry := by
  rw [seen, Option.filter_some, if_pos h]

/-- What is stored is seen unless it has expired already. -/
theorem live_insert_seen (s : FiniteMap κ (Entry τ)) (key : κ) (entry : Entry τ) :
    live now (s.insert key entry) = Function.update (live now s) key (seen now entry) := by
  funext other
  by_cases hkey : other = key
  · subst hkey
    rw [Function.update_self, live, AList.lookup_insert, seen]
  · rw [Function.update_of_ne hkey, live, AList.lookup_insert_ne hkey, live]

/-- What expires later is seen as it is stored. -/
theorem live_insert {s : FiniteMap κ (Entry τ)} {key : κ} {entry : Entry τ} (h : alive now entry = true) :
    live now (s.insert key entry) = Function.update (live now s) key (some entry) := by
  rw [live_insert_seen, seen_of_alive h]

/-- What is erased is not seen. -/
theorem live_erase {s : FiniteMap κ (Entry τ)} {key : κ} :
    live now (s.erase key) = Function.update (live now s) key none := by
  funext other
  by_cases hkey : other = key
  · subst hkey
    rw [Function.update_self, live, AList.lookup_erase]
    rfl
  · rw [Function.update_of_ne hkey, live, AList.lookup_erase_ne hkey, live]

/-- Dropping only what has expired drops nothing that is live. -/
theorem live_retain {s : FiniteMap κ (Entry τ)} {p : Entry τ → Bool}
    (h : ∀ entry, alive now entry = true → p entry = true) :
    live now (s.retain fun _ => p) = live now s := by
  funext key
  rw [live, FiniteMap.lookup_retain, Option.filter_filter, live]
  congr 1
  funext entry
  cases hentry : alive now entry with
  | false => rw [Bool.and_false]
  | true => rw [h entry hentry, Bool.and_true]

end Instants

end Jasil.State
