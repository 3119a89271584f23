import Jasil.FiniteMaps.Retained
import Jasil.Transition.Reachability

/-! # Shared Redis clients
A process has one client for each key, and every acquisition is a reference to it. A user gives back the
references that were recorded while it was built, and the client whose last reference goes is closed.

* **`getSharedClient`**, **`releaseSharedClients`**: the registry, which counts references and knows no users.
* **`World`**: the registry with its users, what was recorded for each and what each still holds.
* **`World.Inv`**: the count of a key is the number of acquisitions of it that are not released.
* **`closedByLastUser`**: as long as nobody gives back what it no longer holds of a key that others hold, a
  client is closed by its last user; **`closedByLastUser_of_close`**: closing a platform never does, however
  often. -/

namespace Jasil.RedisClients

/-- `(storage_uri, decode_responses)`. -/
abbrev ClientKey := String × Bool

variable {κ υ : Type*} [DecidableEq κ] [DecidableEq υ]

/-- A client: its key and the number it was created under. -/
abbrev Client (κ : Type*) := κ × ℕ

/-! ## The registry -/

/-- `_shared_clients` and `_references`. -/
structure Registry (κ : Type*) where
  clients : FiniteMap κ ℕ
  references : FiniteMap κ ℕ

namespace Registry

/-- No client. -/
def empty : Registry κ := ⟨∅, ∅⟩

/-- `_references.get(key, 0)`. -/
def count (r : Registry κ) (key : κ) : ℕ := (r.references.lookup key).getD 0

/-- `get_shared_client`: the client and the registry after it. `create` is what `create_redis_client` returns, or
`none` when it raises. -/
def getSharedClient (r : Registry κ) (key : κ) (create : Option ℕ) : Option (ℕ × Registry κ) := do
  let (client, clients) ←
    match r.clients.lookup key with
    | some client => some (client, r.clients)
    | none => create.map fun client => (client, r.clients.insert key client)
  some (client, ⟨clients, r.references.insert key (r.count key + 1)⟩)

/-- Give back one reference: the registry after it, and the client when it was the last one. -/
def giveBack (r : Registry κ) (key : κ) : Registry κ × List (Client κ) :=
  if r.count key ≤ 0 then (r, [])
  else if 1 < r.count key then ({ r with references := r.references.insert key (r.count key - 1) }, [])
  else
    (⟨r.clients.erase key, r.references.erase key⟩, (r.clients.lookup key).toList.map (key, ·))

/-- `release_shared_clients`: the registry after it, and the clients that are closed. -/
def releaseSharedClients (r : Registry κ) : List κ → Registry κ × List (Client κ)
  | [] => (r, [])
  | key :: keys =>
    let (r, closing) := r.giveBack key
    let (r, rest) := r.releaseSharedClients keys
    (r, closing ++ rest)

/-- There is a client exactly where there are references. -/
def Consistent (r : Registry κ) : Prop := ∀ key, (r.clients.lookup key).isSome ↔ 0 < r.count key

/-- No client is counted. -/
theorem consistent_empty : (empty : Registry κ).Consistent := by
  intro key
  exact iff_of_false Bool.false_ne_true (Nat.lt_irrefl 0)

variable {r : Registry κ}

/-- The count of one key is set. -/
theorem count_insert (r : Registry κ) (clients : FiniteMap κ ℕ) (key : κ) (n : ℕ) (other : κ) :
    (⟨clients, r.references.insert key n⟩ : Registry κ).count other = if other = key then n
    else r.count other := by
  unfold count
  by_cases h : other = key
  · rw [if_pos h, h, AList.lookup_insert]
    rfl
  · rw [if_neg h, AList.lookup_insert_ne h]

/-- The count of one key is gone. -/
theorem count_erase (r : Registry κ) (clients : FiniteMap κ ℕ) (key other : κ) :
    (⟨clients, r.references.erase key⟩ : Registry κ).count other = if other = key then 0 else r.count other := by
  unfold count
  by_cases h : other = key
  · rw [if_pos h, h, AList.lookup_erase]
    rfl
  · rw [if_neg h, AList.lookup_erase_ne h]

/-- **What giving back so many references of each key does**: a count never goes below zero, and the client whose
count gets there is closed. -/
structure Released (r : Registry κ) (n : κ → ℕ) (r' : Registry κ) (closing : List (Client κ)) : Prop where
  consistent : r'.Consistent
  count_eq : ∀ key, r'.count key = r.count key - n key
  lookup_eq : ∀ key, r'.clients.lookup key = if r'.count key = 0 then none else r.clients.lookup key
  mem_closing : ∀ c : Client κ, c ∈ closing ↔ r.clients.lookup c.1 = some c.2 ∧ r.count c.1 ≤ n c.1
  nodup_closing : closing.Nodup

/-- Without a count there is no client. -/
theorem Consistent.lookup_of_count (h : r.Consistent) {key : κ} (hcount : r.count key = 0) :
    r.clients.lookup key = none := by
  refine Option.not_isSome_iff_eq_none.mp fun hsome => ?_
  have hpos := (h key).mp hsome
  omega

/-- A client that is there is counted. -/
theorem Consistent.pos_of_lookup (h : r.Consistent) {key : κ} {client : ℕ}
    (hlookup : r.clients.lookup key = some client) : 0 < r.count key :=
  (h key).mp (Option.isSome_iff_exists.mpr ⟨client, hlookup⟩)

/-- Nothing is released. -/
theorem released_refl (h : r.Consistent) : Released r (fun _ => 0) r [] where
  consistent := h
  count_eq _ := rfl
  lookup_eq key := by
    split
    · exact h.lookup_of_count ‹_›
    · rfl
  mem_closing c := by
    refine iff_of_false List.not_mem_nil ?_
    rintro ⟨hlookup, hcount⟩
    have hpos := h.pos_of_lookup hlookup
    omega
  nodup_closing := List.nodup_nil

/-- One release after another. -/
theorem Released.trans {n m : κ → ℕ} {r₁ r₂ : Registry κ} {closing closing' : List (Client κ)}
    (h : Released r n r₁ closing) (h' : Released r₁ m r₂ closing') :
    Released r (fun key => n key + m key) r₂ (closing ++ closing') := by
  have hlast (c : Client κ) : c ∈ closing' ↔ r.clients.lookup c.1 = some c.2 ∧ n c.1 < r.count c.1
      ∧ r.count c.1 ≤ n c.1 + m c.1 := by
    rw [h'.mem_closing, h.lookup_eq, h.count_eq]
    split
    · refine iff_of_false ?_ ?_
      · rintro ⟨⟨⟩, -⟩
      · rintro ⟨-, hlt, -⟩
        omega
    · refine and_congr_right fun _ => ?_
      omega
  refine ⟨h'.consistent, fun key => ?_, fun key => ?_, fun c => ?_, ?_⟩
  · rw [h'.count_eq, h.count_eq]
    omega
  · rw [h'.lookup_eq, h.lookup_eq]
    have hcount := h'.count_eq key
    split
    · rfl
    · rw [if_neg (by omega)]
  · rw [List.mem_append, h.mem_closing, hlast]
    constructor
    · rintro (⟨hlookup, hle⟩ | ⟨hlookup, -, hle⟩)
      · exact ⟨hlookup, by omega⟩
      · exact ⟨hlookup, hle⟩
    · rintro ⟨hlookup, hle⟩
      -- the client is closed by the first releases or by those after them
      rcases Nat.lt_or_ge (n c.1) (r.count c.1) with hlt | hge
      · exact .inr ⟨hlookup, hlt, hle⟩
      · exact .inl ⟨hlookup, hge⟩
  · refine h.nodup_closing.append h'.nodup_closing fun c hc hc' => ?_
    have hle := ((h.mem_closing c).mp hc).2
    have hlt := ((hlast c).mp hc').2.1
    omega

/-- **One reference is given back**, and the client is closed when it was the last one. -/
theorem released_giveBack (h : r.Consistent) (key : κ) :
    Released r (fun other => if other = key then 1 else 0) (r.giveBack key).1 (r.giveBack key).2 := by
  unfold giveBack
  split
  · -- there is none to give back
    rename_i hnone
    refine ⟨h, fun other => ?_, (released_refl h).lookup_eq, fun c => ?_, List.nodup_nil⟩
    · show r.count other = _
      split
      · rename_i heq
        rw [heq]
        omega
      · rfl
    · refine iff_of_false List.not_mem_nil ?_
      rintro ⟨hlookup, hcount⟩
      have hpos := h.pos_of_lookup hlookup
      split at hcount
      · rename_i heq
        rw [heq] at hpos
        omega
      · omega
  · split
    · -- there are more
      rename_i hmany
      have hcount (other : κ) : (⟨r.clients, r.references.insert key (r.count key - 1)⟩ : Registry κ).count other
          = r.count other - if other = key then 1 else 0 := by
        rw [count_insert]
        split
        · rename_i heq
          rw [heq]
        · rfl
      have hstays (other : κ) :
          0 < (⟨r.clients, r.references.insert key (r.count key - 1)⟩ : Registry κ).count other
            ↔ 0 < r.count other := by
        rw [hcount]
        split
        · rename_i heq
          rw [heq]
          omega
        · rw [Nat.sub_zero]
      refine ⟨fun other => (h other).trans (hstays other).symm, hcount, fun other => ?_, fun c => ?_,
        List.nodup_nil⟩
      · split
        · rename_i hzero
          have hnone := (hstays other).not.mp (Nat.not_lt.mpr hzero.le)
          exact h.lookup_of_count (Nat.eq_zero_of_not_pos hnone)
        · rfl
      · refine iff_of_false List.not_mem_nil ?_
        rintro ⟨hlookup, hle⟩
        have hpos := h.pos_of_lookup hlookup
        split at hle
        · rename_i heq
          rw [heq] at hle
          omega
        · omega
    · -- it was the last one
      have hone : r.count key = 1 := by omega
      have hcount (other : κ) : (⟨r.clients.erase key, r.references.erase key⟩ : Registry κ).count other
          = r.count other - if other = key then 1 else 0 := by
        rw [count_erase]
        split
        · rename_i heq
          rw [heq, hone]
        · rfl
      have hlookup (other : κ) : (r.clients.erase key).lookup other
          = if other = key then none else r.clients.lookup other := by
        split
        · rename_i heq
          rw [heq, AList.lookup_erase]
        · rename_i heq
          exact AList.lookup_erase_ne heq
      refine ⟨fun other => ?_, hcount, fun other => ?_, fun c => ?_, ?_⟩
      · rw [hlookup, hcount]
        split
        · rename_i heq
          rw [heq, hone]
          exact iff_of_false Bool.false_ne_true (Nat.lt_irrefl 0)
        · exact h other
      · rw [hlookup, hcount]
        by_cases heq : other = key
        · rw [if_pos heq, if_pos heq, heq, hone]
          rfl
        · rw [if_neg heq, if_neg heq, Nat.sub_zero]
          split
          · exact h.lookup_of_count ‹_›
          · rfl
      · rw [List.mem_map]
        constructor
        · rintro ⟨client, hclient, rfl⟩
          refine ⟨Option.mem_toList.mp hclient, ?_⟩
          rw [if_pos rfl, hone]
        · rintro ⟨hclient, hle⟩
          have hpos := h.pos_of_lookup hclient
          by_cases heq : c.1 = key
          · exact ⟨c.2, Option.mem_toList.mpr (heq ▸ hclient), Prod.ext heq.symm rfl⟩
          · rw [if_neg heq] at hle
            omega
      · cases r.clients.lookup key with
        | none => exact List.nodup_nil
        | some client => exact List.nodup_singleton _

/-- **All that was recorded is given back.** -/
theorem released_releaseSharedClients (keys : List κ) (h : r.Consistent) :
    Released r (keys.count ·) (r.releaseSharedClients keys).1 (r.releaseSharedClients keys).2 := by
  induction keys generalizing r with
  | nil => exact released_refl h
  | cons key keys ih =>
    have hfirst := released_giveBack h key
    have hboth := hfirst.trans (ih hfirst.consistent)
    have hcount : (fun other => (if other = key then 1 else 0) + keys.count other)
        = ((key :: keys).count ·) := by
      funext other
      rw [List.count_cons, Nat.add_comm]
      by_cases heq : other = key
      · rw [if_pos heq, heq, if_pos (beq_self_eq_true key)]
      · rw [if_neg heq, if_neg fun hkey => heq (beq_iff_eq.mp hkey).symm]
    rw [hcount] at hboth
    exact hboth

/-- **One more reference** to the client of the key, which is a new one where there was none. -/
theorem getSharedClient_cases (key : κ) (create : Option ℕ) (h : r.Consistent) :
    (∃ client r', r.getSharedClient key create = some (client, r') ∧ r'.Consistent
      ∧ (∀ other, r'.count other = r.count other + if other = key then 1 else 0)
      ∧ (∀ other, r'.clients.lookup other = if other = key then some client else r.clients.lookup other)
      ∧ (r.clients.lookup key = some client ∨ r.clients.lookup key = none ∧ create = some client))
    ∨ r.getSharedClient key create = none ∧ r.clients.lookup key = none ∧ create = none := by
  -- the count goes up, with the client there was or a new one
  have hcount (clients : FiniteMap κ ℕ) (other : κ) :
      (⟨clients, r.references.insert key (r.count key + 1)⟩ : Registry κ).count other
        = r.count other + if other = key then 1 else 0 := by
    rw [count_insert]
    split
    · rename_i heq
      rw [heq]
    · rfl
  have hconsistent {clients : FiniteMap κ ℕ} {client : ℕ} (hlookup : ∀ other, clients.lookup other
      = if other = key then some client else r.clients.lookup other) :
      (⟨clients, r.references.insert key (r.count key + 1)⟩ : Registry κ).Consistent := by
    intro other
    rw [hcount, hlookup]
    split
    · exact iff_of_true rfl (Nat.succ_pos _)
    · exact h other
  unfold getSharedClient
  cases hlookup : r.clients.lookup key with
  | some client =>
    have hsame (other : κ) :
        r.clients.lookup other = if other = key then some client else r.clients.lookup other := by
      split
      · rename_i heq
        rw [heq, hlookup]
      · rfl
    exact .inl ⟨client, _, rfl, hconsistent hsame, hcount _, hsame, .inl rfl⟩
  | none =>
    cases create with
    | none => exact .inr ⟨rfl, rfl, rfl⟩
    | some client =>
      have hinsert (other : κ) :
          (r.clients.insert key client).lookup other = if other = key then some client
          else r.clients.lookup other := by
        split
        · rename_i heq
          rw [heq, AList.lookup_insert]
        · rename_i heq
          exact AList.lookup_insert_ne heq
      exact .inl ⟨client, _, rfl, hconsistent hinsert, hcount _, hinsert, .inr ⟨rfl, rfl⟩⟩

end Registry

/-! ## The users -/

/-- An acquisition that is not released. -/
structure Hold (κ υ : Type*) where
  user : υ
  client : Client κ
  deriving DecidableEq

/-- The registry with its users. -/
structure World (κ υ : Type*) where
  registry : Registry κ
  /-- What `track_acquisitions` collected for each user. -/
  recorded : υ → List κ
  /-- The acquisitions since their user released the last time. -/
  holds : List (Hold κ υ)
  opened : List (Client κ)
  closed : List (Client κ)

/-- What may happen. -/
inductive Event (κ υ : Type*)
  /-- A user acquires a client, and connecting works or not if it has to be created. -/
  | acquire (user : υ) (key : κ) (connects : Bool)
  /-- A user gives back everything it recorded. -/
  | release (user : υ)
  /-- `Platform.close`, which takes the recorded keys out first. A build that fails half-way gives back what it
  recorded and drops the keys, too. -/
  | close (user : υ)

namespace World

/-- No user yet. -/
def init : World κ υ := ⟨.empty, fun _ => [], [], [], []⟩

/-- `create_redis_client`, which raises when it cannot connect. -/
def createRedisClient (w : World κ υ) (connects : Bool) : Option ℕ :=
    if connects then some w.opened.length else none

/-- A user acquires the client of a key, which is created when there is none. -/
def acquire (w : World κ υ) (user : υ) (key : κ) (connects : Bool) : World κ υ :=
  match w.registry.getSharedClient key (w.createRedisClient connects) with
  | none => w
  | some (client, registry) =>
    { w with
      registry
      recorded := Function.update w.recorded user (w.recorded user ++ [key])
      holds := w.holds ++ [⟨user, key, client⟩]
      opened := if (w.registry.clients.lookup key).isSome then w.opened else w.opened ++ [(key, client)] }

/-- A user releases what it acquired last. -/
def release (w : World κ υ) (user : υ) : World κ υ :=
  { w with
    registry := (w.registry.releaseSharedClients (w.recorded user)).1
    holds := w.holds.filter (·.user ≠ user)
    closed := w.closed ++ (w.registry.releaseSharedClients (w.recorded user)).2 }

/-- A user closes all it has. -/
def close (w : World κ υ) (user : υ) : World κ υ :=
  { w.release user with recorded := Function.update w.recorded user [] }

/-- What an event does; one that the code cannot make happen is none. -/
def step (w : World κ υ) : Event κ υ → Option (World κ υ)
  | .acquire user key connects => some (w.acquire user key connects)
  | .release user => some (w.release user)
  | .close user => some (w.close user)

/-- How often a user holds a key. -/
def heldBy (w : World κ υ) (user : υ) (key : κ) : ℕ := w.holds.countP fun h => h.user = user ∧ h.client.1 = key

/-- **Giving back is harmless** when it gives back what the user holds, key by key, or there is nobody else
who holds the key. -/
def Harmless (w : World κ υ) : Event κ υ → Prop
  | .acquire _ _ _ => True
  | .release user | .close user => ∀ key ∈ w.recorded user,
      (w.recorded user).count key ≤ w.heldBy user key ∨ ∀ h ∈ w.holds, h.client.1 = key → h.user = user

instance decidableHarmless (w : World κ υ) (e : Event κ υ) : Decidable (w.Harmless e) :=
  match e with
  | .acquire _ _ _ => isTrue trivial
  | .release _ => inferInstanceAs (Decidable (∀ key ∈ _, _ ∨ _))
  | .close _ => inferInstanceAs (Decidable (∀ key ∈ _, _ ∨ _))

/-- **A client is closed by its last user**: once it is held by nobody, and only once; and who acquires a client
gets an open one. -/
structure ClosedByLastUser (w : World κ υ) : Prop where
  once : w.closed.Nodup
  closed_iff : ∀ c ∈ w.opened, c ∈ w.closed ↔ ∀ h ∈ w.holds, h.client ≠ c
  held_opened : ∀ h ∈ w.holds, h.client ∈ w.opened
  acquired_open : ∀ key connects client r,
    w.registry.getSharedClient key (w.createRedisClient connects) = some (client, r) → (key, client) ∉ w.closed

/-- **The invariant**: the references to a key are the acquisitions of it that are held, all of one client;
and the clients that are open are those of the registry. -/
structure Inv (w : World κ υ) : Prop where
  consistent : w.registry.Consistent
  count_eq : ∀ key, w.registry.count key = w.holds.countP fun h => h.client.1 = key
  current : ∀ h ∈ w.holds, w.registry.clients.lookup h.client.1 = some h.client.2
  held_le : ∀ user key, w.heldBy user key ≤ (w.recorded user).count key
  opened_lt : ∀ c ∈ w.opened, c.2 < w.opened.length
  current_opened : ∀ c : Client κ, w.registry.clients.lookup c.1 = some c.2 → c ∈ w.opened ∧ c ∉ w.closed
  current_of_opened : ∀ c ∈ w.opened, c ∉ w.closed → w.registry.clients.lookup c.1 = some c.2
  closed_opened : ∀ c ∈ w.closed, c ∈ w.opened
  once : w.closed.Nodup

/-- In the beginning nobody holds anything. -/
theorem inv_init : (init : World κ υ).Inv where
  consistent := Registry.consistent_empty
  count_eq _ := rfl
  current := by rintro _ ⟨⟩
  held_le _ _ := le_rfl
  opened_lt := by rintro _ ⟨⟩
  current_opened := by rintro _ ⟨⟩
  current_of_opened := by rintro _ ⟨⟩
  closed_opened := by rintro _ ⟨⟩
  once := List.nodup_nil

variable {w : World κ υ}

omit [DecidableEq κ] [DecidableEq υ] in
/-- A client that is created is a new one. -/
theorem eq_of_create {connects : Bool} {client : ℕ} (h : w.createRedisClient connects = some client) :
    client = w.opened.length := by
  cases connects with
  | true => exact (Option.some.inj h).symm
  | false => cases h

/-- What is held is a client of the registry, which is open. -/
theorem Inv.onlyLastUser (h : w.Inv) : w.ClosedByLastUser where
  once := h.once
  closed_iff c hc := by
    constructor
    · rintro hclosed hold hhold rfl
      exact (h.current_opened _ (h.current hold hhold)).2 hclosed
    · intro hfree
      by_contra hopen
      -- a client of the registry has a reference, which is somebody's
      have hlookup := h.current_of_opened c hc hopen
      have hpos := h.consistent.pos_of_lookup hlookup
      rw [h.count_eq] at hpos
      obtain ⟨hold, hhold, hkey⟩ := List.countP_pos_iff.mp hpos
      have hkey : hold.client.1 = c.1 := of_decide_eq_true hkey
      have hclient := h.current hold hhold
      rw [hkey, hlookup] at hclient
      exact hfree hold hhold (Prod.ext hkey (Option.some.inj hclient).symm)
  held_opened hold hhold := (h.current_opened _ (h.current hold hhold)).1
  acquired_open key connects client r hget := by
    rcases Registry.getSharedClient_cases key (w.createRedisClient connects) h.consistent with
      ⟨client', r', hget', -, -, -, hcurrent⟩ | ⟨hget', -, -⟩
    · rw [hget] at hget'
      obtain ⟨rfl, rfl⟩ := Prod.mk.inj (Option.some.inj hget')
      rcases hcurrent with hlookup | ⟨-, hcreate⟩
      · exact (h.current_opened (key, client) hlookup).2
      · intro hclosed
        have hlt := h.opened_lt _ (h.closed_opened _ hclosed)
        rw [eq_of_create hcreate] at hlt
        exact Nat.lt_irrefl _ hlt
    · rw [hget] at hget'
      cases hget'

omit [DecidableEq υ] in
/-- The clients opened after an acquisition. -/
theorem mem_opened_acquire {key : κ} {client : ℕ} {c : Client κ} :
    c ∈ (if (w.registry.clients.lookup key).isSome then w.opened else w.opened ++ [(key, client)])
      ↔ c ∈ w.opened ∨ w.registry.clients.lookup key = none ∧ c = (key, client) := by
  cases w.registry.clients.lookup key with
  | some old => simp
  | none => simp

omit [DecidableEq υ] in
/-- A client is opened exactly when there was none. -/
theorem length_opened_acquire {key : κ} {client : ℕ} :
    (if (w.registry.clients.lookup key).isSome then w.opened else w.opened ++ [(key, client)]).length
      = w.opened.length + if w.registry.clients.lookup key = none then 1 else 0 := by
  cases w.registry.clients.lookup key with
  | some old => simp
  | none => simp

/-- **An acquisition is recorded**: as often as a user holds a key more, it has the key recorded more. -/
theorem acquire_counts (w : World κ υ) (user : υ) (key : κ) (connects : Bool) : ∃ n : υ → κ → ℕ, ∀ other key',
    (w.acquire user key connects).heldBy other key' = w.heldBy other key' + n other key'
      ∧ ((w.acquire user key connects).recorded other).count key'
        = (w.recorded other).count key' + n other key' := by
  unfold acquire
  split
  · exact ⟨fun _ _ => 0, fun _ _ => ⟨rfl, rfl⟩⟩
  · refine ⟨fun other key' => if user = other ∧ key = key' then 1 else 0, fun other key' => ⟨?_, ?_⟩⟩
    · unfold heldBy
      rw [List.countP_append, List.countP_singleton]
      simp only [decide_eq_true_eq]
    · dsimp only
      by_cases huser : user = other
      · subst huser
        rw [Function.update_self, List.count_append, List.count_singleton]
        simp only [true_and, beq_iff_eq]
      · rw [Function.update_of_ne (Ne.symm huser), if_neg fun h => huser h.1]
        rfl

/-- What each user holds is counted after an acquisition. -/
theorem held_le_acquire (h : w.Inv) (user : υ) (key : κ) (connects : Bool) (other : υ) (key' : κ) :
    (w.acquire user key connects).heldBy other key' ≤ ((w.acquire user key connects).recorded other).count
    key' := by
  obtain ⟨n, hn⟩ := w.acquire_counts user key connects
  rw [(hn other key').1, (hn other key').2]
  exact Nat.add_le_add_right (h.held_le other key') _

/-- **An acquisition keeps the invariant.** -/
theorem inv_acquire (h : w.Inv) (user : υ) (key : κ) (connects : Bool) : (w.acquire user key connects).Inv := by
  have hheld := held_le_acquire h user key connects
  unfold acquire at hheld ⊢
  rcases Registry.getSharedClient_cases key (w.createRedisClient connects) h.consistent with
    ⟨client, r, hget, hconsistent, hcount, hlookup, hcurrent⟩ | ⟨hget, -, -⟩
  · rw [hget] at hheld ⊢
    -- a client that the registry has, it keeps
    have hkeeps {c : Client κ} (hc : w.registry.clients.lookup c.1 = some c.2) :
        r.clients.lookup c.1 = some c.2 := by
      rw [hlookup]
      split
      · rename_i heq
        rw [heq] at hc
        rcases hcurrent with hsome | ⟨hnone, -⟩
        · rw [← hsome, hc]
        · rw [hnone] at hc
          cases hc
      · exact hc
    have hnew : r.clients.lookup key = some client := by rw [hlookup, if_pos rfl]
    -- a client is opened where the registry has none, under the next number
    have hfresh (hnone : w.registry.clients.lookup key = none) : client = w.opened.length := by
      rcases hcurrent with hsome | ⟨-, hcreate⟩
      · rw [hnone] at hsome
        cases hsome
      · exact eq_of_create hcreate
    refine ⟨hconsistent, fun other => ?_, ?_, hheld, fun c hc => ?_, fun c hc => ?_, fun c hc hopen => ?_,
      fun c hc => ?_,
      h.once⟩
    · rw [hcount, h.count_eq, List.countP_append, List.countP_singleton]
      simp only [decide_eq_true_eq, @eq_comm _ other key]
    · intro hold hhold
      rcases List.mem_append.mp hhold with hhold | hhold
      · exact hkeeps (h.current hold hhold)
      · rw [List.mem_singleton.mp hhold]
        exact hnew
    · dsimp only at hc ⊢
      rw [length_opened_acquire]
      rcases mem_opened_acquire.mp hc with hc | ⟨hnone, rfl⟩
      · have hlt := h.opened_lt c hc
        omega
      · rw [if_pos hnone, hfresh hnone]
        exact Nat.lt_succ_self _
    · dsimp only at hc ⊢
      rw [mem_opened_acquire]
      rw [hlookup] at hc
      split at hc
      · rename_i heq
        obtain rfl := Option.some.inj hc
        rcases hcurrent with hsome | ⟨hnone, -⟩
        · obtain ⟨hopened, hopen⟩ := h.current_opened c (heq ▸ hsome)
          exact ⟨.inl hopened, hopen⟩
        · refine ⟨.inr ⟨hnone, Prod.ext heq rfl⟩, fun hclosed => ?_⟩
          have hlt := h.opened_lt c (h.closed_opened c hclosed)
          rw [hfresh hnone] at hlt
          exact Nat.lt_irrefl _ hlt
      · obtain ⟨hopened, hopen⟩ := h.current_opened c hc
        exact ⟨.inl hopened, hopen⟩
    · rcases mem_opened_acquire.mp hc with hc | ⟨-, rfl⟩
      · exact hkeeps (h.current_of_opened c hc hopen)
      · exact hnew
    · exact mem_opened_acquire.mpr (.inl (h.closed_opened c hc))
  · rw [hget]
    exact h

/-- The acquisitions of a key are the user's and the others'. -/
theorem countP_holds (w : World κ υ) (user : υ) (key : κ) :
    (w.holds.countP fun h => h.client.1 = key)
      = ((w.release user).holds.countP fun h => h.client.1 = key) + w.heldBy user key := by
  rw [List.countP_eq_countP_filter_add _ _ fun h => h.user ≠ user, heldBy]
  congr 1
  rw [List.countP_filter]
  refine List.countP_congr fun h _ => ?_
  simp [and_comm]

/-- A release that is harmless leaves the references of the others. -/
theorem count_release {user : υ} (h : w.Inv) (hok : w.Harmless (.release user)) (key : κ) :
    (w.release user).registry.count key = (w.release user).holds.countP fun h => h.client.1 = key := by
  have hsplit := w.countP_holds user key
  have hheld := h.held_le user key
  have hcount := (Registry.released_releaseSharedClients (w.recorded user) h.consistent).count_eq key
  rw [h.count_eq] at hcount
  show (w.registry.releaseSharedClients (w.recorded user)).1.count key = _
  by_cases hmem : key ∈ w.recorded user
  · rcases hok key hmem with hle | honly
    · omega
    · have hothers : ((w.release user).holds.countP fun h => h.client.1 = key) = 0 := by
        refine List.countP_eq_zero.mpr fun hold hhold hkey => ?_
        obtain ⟨hhold, huser⟩ := List.mem_filter.mp hhold
        exact of_decide_eq_true huser (honly hold hhold (of_decide_eq_true hkey))
      omega
  · have hnone := List.count_eq_zero_of_not_mem hmem
    omega

/-- **So does a release** that takes nobody else's reference. -/
theorem inv_release {user : υ} (h : w.Inv) (hok : w.Harmless (.release user)) : (w.release user).Inv := by
  have hreleased := Registry.released_releaseSharedClients (w.recorded user) h.consistent
  have hcount := count_release h hok
  -- a client is closed when its count is zero afterwards
  have hclosing (c : Client κ) : c ∈ (w.registry.releaseSharedClients (w.recorded user)).2
      ↔ w.registry.clients.lookup c.1 = some c.2 ∧ (w.release user).registry.count c.1 = 0 := by
    have hzero := hreleased.count_eq c.1
    rw [hreleased.mem_closing]
    refine and_congr_right fun _ => ?_
    show _ ↔ (w.registry.releaseSharedClients (w.recorded user)).1.count c.1 = 0
    omega
  refine ⟨hreleased.consistent, hcount, fun hold hhold => ?_, fun other key => ?_, h.opened_lt, fun c hc => ?_,
    fun c hc hopen => ?_, fun c hc => ?_, ?_⟩
  · have hpos : 0 < (w.release user).registry.count hold.client.1 := by
      rw [hcount]
      exact List.countP_pos_iff.mpr ⟨hold, hhold, decide_eq_true rfl⟩
    refine (hreleased.lookup_eq _).trans ((if_neg hpos.ne').trans ?_)
    exact h.current hold (List.mem_of_mem_filter hhold)
  · exact List.filter_sublist.countP_le.trans (h.held_le other key)
  · have hlookup := (hreleased.lookup_eq c.1).symm.trans hc
    split at hlookup
    · cases hlookup
    · rename_i hcurrent
      obtain ⟨hopened, hopen⟩ := h.current_opened c hlookup
      refine ⟨hopened, fun hclosed => ?_⟩
      rcases List.mem_append.mp hclosed with hclosed | hclosed
      · exact hopen hclosed
      · exact hcurrent ((hclosing c).mp hclosed).2
  · have hlookup := h.current_of_opened c hc fun hclosed => hopen (List.mem_append_left _ hclosed)
    refine (hreleased.lookup_eq _).trans ((if_neg fun hzero => ?_).trans hlookup)
    exact hopen (List.mem_append_right _ ((hclosing c).mpr ⟨hlookup, hzero⟩))
  · rcases List.mem_append.mp hc with hclosed | hclosed
    · exact h.closed_opened c hclosed
    · exact (h.current_opened c ((hclosing c).mp hclosed).1).1
  · refine h.once.append hreleased.nodup_closing fun c hclosed hnow => ?_
    exact (h.current_opened c ((hclosing c).mp hnow).1).2 hclosed

/-- A user that released holds nothing, and the others hold what they held. -/
theorem heldBy_release (w : World κ υ) (user other : υ) (key : κ) :
    (w.release user).heldBy other key = if other = user then 0 else w.heldBy other key := by
  unfold heldBy release
  rw [List.countP_filter]
  split
  · rename_i huser
    refine List.countP_eq_zero.mpr fun h _ hboth => ?_
    simp only [Bool.and_eq_true, decide_eq_true_eq] at hboth
    exact hboth.2 (hboth.1.1.trans huser)
  · rename_i huser
    refine List.countP_congr fun h _ => ?_
    simp only [Bool.and_eq_true, decide_eq_true_eq]
    exact ⟨fun h => h.1, fun h => ⟨h, h.1 ▸ huser⟩⟩

/-- A user that closed has recorded nothing. -/
theorem recorded_close (w : World κ υ) (user other : υ) :
    (w.close user).recorded other = if other = user then [] else w.recorded other := by
  unfold close
  split
  · rename_i huser
    rw [huser]
    exact Function.update_self _ _ _
  · rename_i huser
    exact Function.update_of_ne huser _ _

/-- **So does a close** that takes nobody else's reference. -/
theorem inv_close {user : υ} (h : w.Inv) (hok : w.Harmless (.close user)) : (w.close user).Inv := by
  have hrelease : (w.release user).Inv := inv_release h hok
  -- a close forgets what is recorded for the user, and gives it back once
  refine { hrelease with held_le := fun other key => ?_ }
  show (w.release user).heldBy other key ≤ _
  rw [heldBy_release, recorded_close]
  split
  · exact Nat.zero_le _
  · exact h.held_le other key

/-- Every such step does. -/
theorem inv_step {e : Event κ υ} {w' : World κ υ} (h : w.Inv) (hok : w.Harmless e) (hstep : w.step e = some w') :
    w'.Inv := by
  cases e with
  | acquire user key connects =>
    obtain rfl := Option.some.inj hstep
    exact inv_acquire h user key connects
  | release user =>
    obtain rfl := Option.some.inj hstep
    exact inv_release h hok
  | close user =>
    obtain rfl := Option.some.inj hstep
    exact inv_close h hok

/-- **A shared client is closed by its last user**, in every run whose releases are harmless. -/
theorem closedByLastUser (h : Reaches step Harmless init w) : w.ClosedByLastUser :=
  (h.invariant Inv inv_init fun _ hinv hok hstep => inv_step hinv hok hstep).onlyLastUser

/-- Two users that share a client, and release it one after the other. -/
def sharing : List (Event ClientKey Bool) :=
  [.acquire false ("redis://cache", true) true, .acquire true ("redis://cache", true) true, .release false]

/-- The first of the two leaves the client to the second. -/
theorem closedByLastUser_sharing : (runTo step Harmless init sharing).ClosedByLastUser :=
  closedByLastUser (reaches_runTo (by decide))

/-- **A second release takes the reference of the other user with it**, whose client is closed. -/
theorem not_closedByLastUser : ¬∀ w : World ClientKey Bool, Reaches step (fun _ _ => True) init w →
    w.ClosedByLastUser := by
  intro hall
  have hrun : (runChecked step (fun _ _ => True) init (sharing ++ [.release false])).isSome := by decide
  obtain ⟨hopened, hheld, hclosed⟩ : (("redis://cache", true), 0) ∈
      (runTo step (fun _ _ => True) (init : World ClientKey Bool) (sharing ++ [.release false])).opened ∧
      ⟨true, (("redis://cache", true), 0)⟩ ∈
      (runTo step (fun _ _ => True) (init : World ClientKey Bool) (sharing ++ [.release false])).holds ∧
      (("redis://cache", true), 0) ∈
      (runTo step (fun _ _ => True) (init : World ClientKey Bool)
      (sharing ++ [.release false])).closed := by decide
  exact ((hall _ (reaches_runTo hrun)).closed_iff _ hopened).mp hclosed _ hheld rfl

/-! ## Platforms that are closed -/

/-- What is recorded is given back by `Platform.close` only. -/
def OnlyCloses (_ : World κ υ) : Event κ υ → Prop
  | .acquire _ _ _ | .close _ => True
  | .release _ => False

/-- Where users only close, what is recorded for them is what they hold. -/
theorem heldBy_eq_of_closes (h : Reaches step OnlyCloses init w) (user : υ) (key : κ) :
    w.heldBy user key = (w.recorded user).count key := by
  refine h.invariant (fun w => ∀ user key, w.heldBy user key = (w.recorded user).count key) (fun _ _ => rfl)
    (fun {w e w'} _ ih hok hstep other key' => ?_) user key
  cases e with
  | acquire user key connects =>
    obtain rfl := Option.some.inj hstep
    obtain ⟨n, hn⟩ := w.acquire_counts user key connects
    rw [(hn other key').1, (hn other key').2, ih]
  | release user => exact absurd hok id
  | close user =>
    obtain rfl := Option.some.inj hstep
    show (w.release user).heldBy other key' = _
    rw [heldBy_release, recorded_close]
    split
    · rfl
    · exact ih other key'

/-- **Closing a platform is harmless**, however often it is closed. -/
theorem harmless_of_closes (h : Reaches step OnlyCloses init w) : Reaches step Harmless init w := by
  induction h with
  | refl => exact .refl
  | @tail w e w' hreach hok hstep ih =>
    refine ih.tail ?_ hstep
    cases e with
    | acquire user key connects => exact trivial
    | release user => exact absurd hok id
    | close user => exact fun key _ => .inl (heldBy_eq_of_closes hreach user key).ge

/-- So a platform's clients are closed by the last platform that uses them. -/
theorem closedByLastUser_of_close (h : Reaches step OnlyCloses init w) : w.ClosedByLastUser :=
  ((harmless_of_closes h).invariant Inv inv_init fun _ hinv hok hstep => inv_step hinv hok hstep).onlyLastUser

end World

end Jasil.RedisClients
