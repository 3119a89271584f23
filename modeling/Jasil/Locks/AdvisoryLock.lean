import Mathlib.Data.Int.Notation
import Mathlib.Data.List.Basic
import Mathlib.Logic.Function.Basic
import Jasil.Transition.Reachability

/-! # The advisory lock
A lock of the database belongs to a server session, and a session may take one that it has again.
`try_acquire` takes a connection from a pool, whose session it shares with nobody until it gives it back; a
connection that might still have a lock is dropped instead.

* **`Locking`**: the server with its sessions and locks, the idle connections of all pools and the calls under
  way.
* **`Locking.step`**: what can happen next. Answers get lost, the server ends sessions, and processes die.
* **`LockInv`**: where the connections are, and who has the locks.
* **`advisory_lock`**: so it is after any run. -/

namespace Jasil.Locks

/-- `advisory_key`: the first eight bytes of the digest of the name, signed. -/
def advisoryKey (sha256 : List UInt8 → List UInt8) (name : String) : ℤ :=
  let bytes := (sha256 name.toUTF8.toList).take 8
  (BitVec.ofNat 64 (bytes.foldl (fun n byte => 256 * n + byte.toNat) 0)).toInt

/-- The session that has a lock, and how often it took it. -/
structure Held where
  session : ℕ
  count : ℕ
  deriving DecidableEq

/-- Where a call stands. -/
inductive Stage
  /-- `pg_try_advisory_lock` -/
  | trying
  /-- The guarded work. -/
  | body (acquired : Bool)
  deriving DecidableEq

/-- A call of `try_acquire`, with the session of its connection. -/
structure Call where
  key : ℤ
  session : ℕ
  stage : Stage
  deriving DecidableEq

/-- Everything there is. -/
structure Locking where
  /-- The sessions that the server has not ended. -/
  live : ℕ → Bool
  /-- The sessions that there ever were. -/
  opened : ℕ
  locks : ℤ → Option Held
  /-- The idle connections of all pools, by their sessions. -/
  idle : List ℕ
  calls : ℕ → Option Call

/-- What comes of a statement. -/
inductive Reply
  | answered
  /-- The client sees it fail; it may have been executed. -/
  | failed (executed : Bool)

/-- What can happen next. -/
inductive LockStep
  /-- A call takes an idle connection, or a new one. -/
  | connect (p : ℕ) (name : String) (idle : Option ℕ)
  | attempt (p : ℕ) (reply : Reply)
  /-- The guarded work ends, and the lock is released; the pool may have no place for the connection. -/
  | exit (p : ℕ) (reply : Reply) (pooled : Bool)
  /-- The process of the call dies. -/
  | die (p : ℕ)
  /-- A pool closes an idle connection. -/
  | discard (c : ℕ)
  /-- The server ends a session. -/
  | drop (c : ℕ)

namespace Locking

/-- No call, and no session. -/
def init : Locking where
  live := fun _ => false
  opened := 0
  locks := fun _ => none
  idle := []
  calls := fun _ => none

/-- Whether `pg_try_advisory_lock` grants a session the lock: nobody else has it. -/
def grants (s : Locking) (c : ℕ) (key : ℤ) : Bool := (s.locks key).all fun held => held.session = c

/-- `pg_try_advisory_lock`. -/
def lock (s : Locking) (c : ℕ) (key : ℤ) : Locking :=
  if s.grants c key then
    { s with locks := Function.update s.locks key (some ⟨c, (s.locks key).elim 0 Held.count + 1⟩) }
  else s

/-- Whether a session has the lock. -/
def holds (s : Locking) (c : ℕ) (key : ℤ) : Bool := (s.locks key).any fun held => held.session = c

/-- `pg_advisory_unlock`: it gives back one of the times the session took the lock. -/
def unlock (s : Locking) (c : ℕ) (key : ℤ) : Locking :=
  if s.holds c key then
    let rest := (s.locks key).bind fun held =>
      if held.count ≤ 1 then none else some { held with count := held.count - 1 }
    { s with locks := Function.update s.locks key rest }
  else s

/-- The call of `p` stands there. -/
def set (s : Locking) (p : ℕ) (call : Option Call) : Locking :=
    { s with calls := Function.update s.calls p call }

/-- The lock is asked for. -/
def attemptStep (s : Locking) (p : ℕ) (reply : Reply) : Option Locking :=
  match s.calls p, reply with
  | some ⟨key, c, .trying⟩, .answered =>
    if s.live c then some ((s.lock c key).set p (some ⟨key, c, .body (s.grants c key)⟩)) else none
  -- the connection is invalidated
  | some ⟨key, c, .trying⟩, .failed executed =>
    some ((if s.live c && executed then s.lock c key else s).set p none)
  | _, _ => none

/-- The guarded work is over. -/
def exitStep (s : Locking) (p : ℕ) (reply : Reply) (pooled : Bool) : Option Locking :=
  match s.calls p, reply with
  | some ⟨_, c, .body false⟩, _ => some ({ s with idle := if pooled then c :: s.idle else s.idle }.set p none)
  | some ⟨key, c, .body true⟩, .answered =>
    let idle := if s.holds c key && pooled then c :: s.idle else s.idle
    if s.live c then some ({ s.unlock c key with idle }.set p none) else none
  -- the connection is invalidated
  | some ⟨key, c, .body true⟩, .failed executed =>
    some ((if s.live c && executed then s.unlock c key else s).set p none)
  | _, _ => none

/-- Take one step. -/
def step (sha256 : List UInt8 → List UInt8) (s : Locking) : LockStep → Option Locking
  | .connect p name none =>
    if s.calls p = none then
      some ({ s with live := Function.update s.live s.opened true, opened := s.opened + 1 }.set p
        (some ⟨advisoryKey sha256 name, s.opened, .trying⟩))
    else none
  | .connect p name (some c) =>
    if s.calls p = none ∧ c ∈ s.idle then
      some ({ s with idle := s.idle.erase c }.set p (some ⟨advisoryKey sha256 name, c, .trying⟩))
    else none
  | .attempt p reply => s.attemptStep p reply
  | .exit p reply pooled => s.exitStep p reply pooled
  | .die p => some (s.set p none)
  | .discard c => some { s with idle := s.idle.erase c }
  | .drop c =>
    some { s with
      live := Function.update s.live c false
      locks := fun key => (s.locks key).filter fun held => held.session ≠ c }

end Locking

/-! ## The invariant -/

/-- **Where the connections are, and who has the locks.** -/
structure LockInv (s : Locking) : Prop where
  idle_nodup : s.idle.Nodup
  idle_lt : ∀ c ∈ s.idle, c < s.opened
  call_lt : ∀ p, ∀ call ∈ s.calls p, call.session < s.opened
  lock_lt : ∀ key, ∀ held ∈ s.locks key, held.session < s.opened
  /-- A connection in use is not idle, and is used by one call. -/
  busy : ∀ p, ∀ call ∈ s.calls p, call.session ∉ s.idle
  own : ∀ p q, ∀ call ∈ s.calls p, ∀ call' ∈ s.calls q, call.session = call'.session → p = q
  /-- A lock is had by a session that is alive, which took it once. -/
  alive : ∀ key, ∀ held ∈ s.locks key, s.live held.session = true
  once : ∀ key, ∀ held ∈ s.locks key, held.count = 1
  /-- No connection that may be used again has a lock. -/
  free : ∀ key, ∀ held ∈ s.locks key, held.session ∉ s.idle
  /-- A call whose session has a lock has acquired it. -/
  acquired : ∀ key, ∀ held ∈ s.locks key, ∀ p, ∀ call ∈ s.calls p, call.session = held.session →
    call.key = key ∧ call.stage = .body true
  /-- A call that has acquired its lock has it, unless the server ended its session. -/
  locked : ∀ p, ∀ call ∈ s.calls p, call.stage = .body true → s.live call.session = true →
    s.locks call.key = some ⟨call.session, 1⟩

/-- It holds in the beginning. -/
theorem lockInv_init : LockInv Locking.init := by
  constructor <;> simp [Locking.init]

section Steps

variable {s s' : Locking} {p q c : ℕ} {key : ℤ} {call : Call} {call' : Option Call}
  {sha256 : List UInt8 → List UInt8} {a : LockStep}

/-- A call that is there after one was set is that one, or was there. -/
theorem mem_calls_set (h : call ∈ Function.update s.calls p call' q) :
    (q = p ∧ call' = some call) ∨ q ≠ p ∧ call ∈ s.calls q := by
  by_cases hq : q = p
  · subst hq
    rw [Function.update_self] at h
    exact .inl ⟨rfl, h⟩
  · rw [Function.update_of_ne hq] at h
    exact .inr ⟨hq, h⟩

/-- A call that has not acquired its lock has none. -/
theorem LockInv.no_lock (h : LockInv s) (hp : s.calls p = some call) (hstage : call.stage ≠ .body true) :
    ∀ key, ∀ held ∈ s.locks key, held.session ≠ call.session := by
  intro key held hheld heq
  exact hstage (h.acquired key held hheld p call hp heq.symm).2

/-- **A connection is taken**, which nobody uses and which has no lock. -/
theorem LockInv.checkout (h : LockInv s) (hlt : c < s'.opened) (hopened : s.opened ≤ s'.opened)
    (hidle : s'.idle.Sublist s.idle) (hc : c ∉ s'.idle) (hcalls : ∀ q, ∀ call ∈ s.calls q, call.session ≠ c)
    (hfree : ∀ key, ∀ held ∈ s.locks key, held.session ≠ c) (hlive : ∀ c', c' ≠ c → s'.live c' = s.live c')
    (hlocks : s'.locks = s.locks) (hset : s'.calls = Function.update s.calls p (some ⟨key, c, .trying⟩)) :
    LockInv s' where
  idle_nodup := h.idle_nodup.sublist hidle
  idle_lt := fun c' hc' => Nat.lt_of_lt_of_le (h.idle_lt c' (hidle.subset hc')) hopened
  call_lt := by
    intro q call hcall
    rw [hset] at hcall
    rcases mem_calls_set hcall with ⟨-, heq⟩ | ⟨-, hcall⟩
    · rwa [← Option.some.inj heq]
    · exact Nat.lt_of_lt_of_le (h.call_lt q call hcall) hopened
  lock_lt := by
    rw [hlocks]
    exact fun key held hheld => Nat.lt_of_lt_of_le (h.lock_lt key held hheld) hopened
  busy := by
    intro q call hcall
    rw [hset] at hcall
    rcases mem_calls_set hcall with ⟨-, heq⟩ | ⟨-, hcall⟩
    · rwa [← Option.some.inj heq]
    · exact fun hmem => h.busy q call hcall (hidle.subset hmem)
  own := by
    intro q q' call hcall call' hcall' heq
    rw [hset] at hcall hcall'
    rcases mem_calls_set hcall with ⟨rfl, hnew⟩ | ⟨-, hcall⟩
    · rcases mem_calls_set hcall' with ⟨rfl, -⟩ | ⟨-, hcall'⟩
      · rfl
      · rw [← Option.some.inj hnew] at heq
        exact absurd heq.symm (hcalls q' call' hcall')
    · rcases mem_calls_set hcall' with ⟨-, hnew'⟩ | ⟨-, hcall'⟩
      · rw [← Option.some.inj hnew'] at heq
        exact absurd heq (hcalls q call hcall)
      · exact h.own q q' call hcall call' hcall' heq
  alive := by
    rw [hlocks]
    intro key held hheld
    rw [hlive _ (hfree key held hheld)]
    exact h.alive key held hheld
  once := by
    rw [hlocks]
    exact h.once
  free := by
    rw [hlocks]
    exact fun key held hheld hmem => h.free key held hheld (hidle.subset hmem)
  acquired := by
    rw [hlocks]
    intro key held hheld q call hcall heq
    rw [hset] at hcall
    rcases mem_calls_set hcall with ⟨-, hnew⟩ | ⟨-, hcall⟩
    · rw [← Option.some.inj hnew] at heq
      exact absurd heq.symm (hfree key held hheld)
    · exact h.acquired key held hheld q call hcall heq
  locked := by
    intro q call hcall hstage halive
    rw [hset] at hcall
    rw [hlocks]
    rcases mem_calls_set hcall with ⟨-, hnew⟩ | ⟨-, hcall⟩
    · -- the new call has asked for nothing yet
      rw [← Option.some.inj hnew] at hstage
      cases hstage
    · rw [hlive _ (hcalls q call hcall)] at halive
      exact h.locked q call hcall hstage halive

/-- **A call ends**: its connection is idle again, without a lock, or gone. -/
theorem LockInv.leave (h : LockInv s) (hp : s.calls p = some call)
    (hlocks : ∀ key, s'.locks key = s.locks key
      ∨ s'.locks key = none ∧ ∃ held ∈ s.locks key, held.session = call.session)
    (hidle : s'.idle = s.idle
      ∨ s'.idle = call.session :: s.idle ∧ ∀ key, ∀ held ∈ s'.locks key, held.session ≠ call.session)
    (hlive : s'.live = s.live) (hopened : s'.opened = s.opened)
    (hset : s'.calls = Function.update s.calls p none) :
    LockInv s' := by
  have hold : ∀ key, ∀ held ∈ s'.locks key, held ∈ s.locks key := by
    intro key held hheld
    rcases hlocks key with heq | ⟨heq, -⟩
    · rwa [heq] at hheld
    · rw [heq] at hheld
      cases hheld
  have hother : ∀ q, ∀ call' ∈ s'.calls q, q ≠ p ∧ call' ∈ s.calls q := by
    intro q call' hcall
    rw [hset] at hcall
    rcases mem_calls_set hcall with ⟨-, hnone⟩ | hcall
    · cases hnone
    · exact hcall
  constructor
  case idle_nodup =>
    rcases hidle with heq | ⟨heq, -⟩
    · rw [heq]
      exact h.idle_nodup
    · rw [heq]
      exact List.nodup_cons.mpr ⟨h.busy p call hp, h.idle_nodup⟩
  case idle_lt =>
    intro c hc
    rw [hopened]
    rcases hidle with heq | ⟨heq, -⟩
    · rw [heq] at hc
      exact h.idle_lt c hc
    · rw [heq] at hc
      rcases List.mem_cons.mp hc with rfl | hc
      · exact h.call_lt p call hp
      · exact h.idle_lt c hc
  case call_lt =>
    intro q call' hcall
    rw [hopened]
    exact h.call_lt q call' (hother q call' hcall).2
  case lock_lt =>
    intro key held hheld
    rw [hopened]
    exact h.lock_lt key held (hold key held hheld)
  case busy =>
    intro q call' hcall hmem
    obtain ⟨hq, hcall⟩ := hother q call' hcall
    rcases hidle with heq | ⟨heq, -⟩
    · rw [heq] at hmem
      exact h.busy q call' hcall hmem
    · rw [heq] at hmem
      rcases List.mem_cons.mp hmem with hsession | hmem
      · exact hq (h.own q p call' hcall call hp hsession)
      · exact h.busy q call' hcall hmem
  case own =>
    intro q q' call₁ hcall₁ call₂ hcall₂ heq
    exact h.own q q' call₁ (hother q call₁ hcall₁).2 call₂ (hother q' call₂ hcall₂).2 heq
  case alive =>
    intro key held hheld
    rw [hlive]
    exact h.alive key held (hold key held hheld)
  case once =>
    exact fun key held hheld => h.once key held (hold key held hheld)
  case free =>
    intro key held hheld hmem
    -- the connection is discarded, or goes back without a lock
    rcases hidle with heq | ⟨heq, hnone⟩
    · rw [heq] at hmem
      exact h.free key held (hold key held hheld) hmem
    · rw [heq] at hmem
      rcases List.mem_cons.mp hmem with hsession | hmem
      · exact hnone key held hheld hsession
      · exact h.free key held (hold key held hheld) hmem
  case acquired =>
    intro key held hheld q call' hcall heq
    exact h.acquired key held (hold key held hheld) q call' (hother q call' hcall).2 heq
  case locked =>
    intro q call' hcall hstage halive
    obtain ⟨hq, hcall⟩ := hother q call' hcall
    rw [hlive] at halive
    have hlocked := h.locked q call' hcall hstage halive
    rcases hlocks call'.key with heq | ⟨-, held, hheld, hsession⟩
    · rwa [heq]
    · -- the lock that was released was that of the call that ends
      rw [hlocked] at hheld
      obtain rfl := Option.some.inj hheld
      exact absurd (h.own q p call' hcall call hp hsession) hq

/-- **A call goes on to its body**, with the lock or without. -/
theorem LockInv.proceed {acquired : Bool} {locks' : ℤ → Option Held} (h : LockInv s)
    (hp : s.calls p = some ⟨key, c, .trying⟩) (hlive : s.live c = true)
    (hnew : ∀ key', ∀ held ∈ locks' key', held ∈ s.locks key' ∨ acquired = true ∧ key' = key ∧ held = ⟨c, 1⟩)
    (hkeep : ∀ key', ∀ held ∈ s.locks key', locks' key' = some held)
    (hgot : acquired = true → locks' key = some ⟨c, 1⟩) :
    LockInv { s with locks := locks', calls := Function.update s.calls p (some ⟨key, c, .body acquired⟩) } := by
  have hnone : ∀ key, ∀ held ∈ s.locks key, held.session ≠ c := h.no_lock hp (by rintro ⟨⟩)
  have hsession : ∀ q, ∀ call ∈ Function.update s.calls p (some ⟨key, c, .body acquired⟩) q,
      ∃ call₀ ∈ s.calls q, call₀.session = call.session := by
    intro q call hcall
    rcases mem_calls_set hcall with ⟨rfl, heq⟩ | ⟨-, hcall⟩
    · rw [← Option.some.inj heq]
      exact ⟨_, hp, rfl⟩
    · exact ⟨call, hcall, rfl⟩
  constructor
  case idle_nodup =>
    exact h.idle_nodup
  case idle_lt =>
    exact h.idle_lt
  case call_lt =>
    intro q call hcall
    obtain ⟨call₀, hcall₀, heq⟩ := hsession q call hcall
    rw [← heq]
    exact h.call_lt q call₀ hcall₀
  case lock_lt =>
    intro key' held hheld
    rcases hnew key' held hheld with hheld | ⟨-, -, rfl⟩
    · exact h.lock_lt key' held hheld
    · exact h.call_lt p _ hp
  case busy =>
    intro q call hcall
    obtain ⟨call₀, hcall₀, heq⟩ := hsession q call hcall
    rw [← heq]
    exact h.busy q call₀ hcall₀
  case own =>
    intro q q' call hcall call' hcall' heq
    obtain ⟨call₀, hcall₀, heq₀⟩ := hsession q call hcall
    obtain ⟨call₁, hcall₁, heq₁⟩ := hsession q' call' hcall'
    exact h.own q q' call₀ hcall₀ call₁ hcall₁ (heq₀.trans (heq.trans heq₁.symm))
  case alive =>
    intro key' held hheld
    rcases hnew key' held hheld with hheld | ⟨-, -, rfl⟩
    · exact h.alive key' held hheld
    · exact hlive
  case once =>
    intro key' held hheld
    rcases hnew key' held hheld with hheld | ⟨-, -, rfl⟩
    · exact h.once key' held hheld
    · rfl
  case free =>
    intro key' held hheld
    rcases hnew key' held hheld with hheld | ⟨-, -, rfl⟩
    · exact h.free key' held hheld
    · exact h.busy p _ hp
  case acquired =>
    intro key' held hheld q call hcall heq
    rcases hnew key' held hheld with hheld | ⟨hacquired, rfl, rfl⟩
    · rcases mem_calls_set hcall with ⟨-, hcall⟩ | ⟨-, hcall⟩
      · rw [← Option.some.inj hcall] at heq
        exact absurd heq.symm (hnone key' held hheld)
      · exact h.acquired key' held hheld q call hcall heq
    · -- the new lock is this call's
      rcases mem_calls_set hcall with ⟨-, hcall⟩ | ⟨hq, hcall⟩
      · rw [← Option.some.inj hcall, hacquired]
        exact ⟨rfl, rfl⟩
      · exact absurd (h.own q p call hcall _ hp heq) hq
  case locked =>
    intro q call hcall hstage halive
    rcases mem_calls_set hcall with ⟨-, hcall⟩ | ⟨-, hcall⟩
    · -- a call whose body has the lock was granted it now
      obtain rfl := Option.some.inj hcall
      obtain rfl : acquired = true := by simpa using hstage
      exact hgot rfl
    · exact hkeep call.key _ (h.locked q call hcall hstage halive)

/-- **A call is answered**: it is granted the lock if nobody has it. -/
theorem LockInv.answered (h : LockInv s) (hp : s.calls p = some ⟨key, c, .trying⟩) (hlive : s.live c = true) :
    s.grants c key = (s.locks key).isNone
      ∧ LockInv ((s.lock c key).set p (some ⟨key, c, .body (s.grants c key)⟩)) := by
  have hnone : ∀ key, ∀ held ∈ s.locks key, held.session ≠ c := h.no_lock hp (by rintro ⟨⟩)
  cases hlock : s.locks key with
  | none =>
    have hgrants : s.grants c key = true := by rw [Locking.grants, hlock]; rfl
    rw [hgrants, Locking.lock, if_pos hgrants, hlock]
    refine ⟨rfl, h.proceed hp hlive (fun key' held hheld => ?_) (fun key' held hheld => ?_) fun _ => ?_⟩
    · dsimp only at hheld
      by_cases hkey : key' = key
      · subst hkey
        rw [Function.update_self] at hheld
        exact .inr ⟨rfl, rfl, (Option.some.inj hheld).symm⟩
      · rw [Function.update_of_ne hkey] at hheld
        exact .inl hheld
    · have hkey : key' ≠ key := by
        rintro rfl
        rw [hlock] at hheld
        cases hheld
      dsimp only
      rwa [Function.update_of_ne hkey]
    · exact Function.update_self ..
  | some held =>
    have hgrants : s.grants c key = false := by
      rw [Locking.grants, hlock]
      simpa using hnone key held hlock
    rw [hgrants, Locking.lock, hgrants, if_neg Bool.false_ne_true]
    exact ⟨rfl, h.proceed hp hlive (fun _ _ hheld => .inl hheld) (fun _ _ hheld => hheld) (by rintro ⟨⟩)⟩

/-- **The server ends a session.** -/
theorem LockInv.drop (h : LockInv s) (c : ℕ) :
    LockInv { s with
      live := Function.update s.live c false
      locks := fun key => (s.locks key).filter fun held => held.session ≠ c } := by
  have hold : ∀ key, ∀ held ∈ (s.locks key).filter fun held => decide (held.session ≠ c),
      held ∈ s.locks key ∧ held.session ≠ c := by
    intro key held hheld
    simpa using hheld
  constructor
  case idle_nodup =>
    exact h.idle_nodup
  case idle_lt =>
    exact h.idle_lt
  case call_lt =>
    exact h.call_lt
  case lock_lt =>
    exact fun key held hheld => h.lock_lt key held (hold key held hheld).1
  case busy =>
    exact h.busy
  case own =>
    exact h.own
  case alive =>
    intro key held hheld
    obtain ⟨hheld, hne⟩ := hold key held hheld
    dsimp only
    rw [Function.update_of_ne hne]
    exact h.alive key held hheld
  case once =>
    exact fun key held hheld => h.once key held (hold key held hheld).1
  case free =>
    exact fun key held hheld => h.free key held (hold key held hheld).1
  case acquired =>
    exact fun key held hheld => h.acquired key held (hold key held hheld).1
  -- a call whose session lives has lost no lock
  case locked =>
    intro p call hcall hstage halive
    dsimp only at hcall halive ⊢
    by_cases hc : call.session = c
    · rw [hc, Function.update_self] at halive
      cases halive
    · rw [Function.update_of_ne hc] at halive
      simpa [h.locked p call hcall hstage halive] using hc

/-- The pool closes a connection. -/
theorem LockInv.discard (h : LockInv s) (c : ℕ) : LockInv { s with idle := s.idle.erase c } where
  idle_nodup := h.idle_nodup.erase c
  idle_lt := fun c' hc' => h.idle_lt c' (List.mem_of_mem_erase hc')
  call_lt := h.call_lt
  lock_lt := h.lock_lt
  busy := fun p call hcall hmem => h.busy p call hcall (List.mem_of_mem_erase hmem)
  own := h.own
  alive := h.alive
  once := h.once
  free := fun key held hheld hmem => h.free key held hheld (List.mem_of_mem_erase hmem)
  acquired := h.acquired
  locked := h.locked

/-- **A lock is released** by the call that acquired it: its session is alive, so it had this lock, once, and no
other. -/
theorem LockInv.released (h : LockInv s) (hp : s.calls p = some ⟨key, c, .body true⟩) (hlive : s.live c = true) :
    s.holds c key = true ∧ s.unlock c key = { s with locks := Function.update s.locks key none }
      ∧ (∀ key', Function.update s.locks key none key' = s.locks key'
        ∨ Function.update s.locks key none key' = none ∧ ∃ held ∈ s.locks key', held.session = c)
      ∧ ∀ key', ∀ held ∈ Function.update s.locks key none key', held.session ≠ c := by
  have hlock : s.locks key = some ⟨c, 1⟩ := h.locked p _ hp rfl hlive
  have hholds : s.holds c key = true := by simp [Locking.holds, hlock]
  refine ⟨hholds, ?_, fun key' => ?_, fun key' held hheld heq => ?_⟩
  · rw [Locking.unlock, if_pos hholds, hlock]
    rfl
  · by_cases hkey : key' = key
    · subst hkey
      exact .inr ⟨Function.update_self .., _, hlock, rfl⟩
    · exact .inl (Function.update_of_ne hkey ..)
  · by_cases hkey : key' = key
    · subst hkey
      rw [Function.update_self] at hheld
      cases hheld
    · rw [Function.update_of_ne hkey] at hheld
      exact hkey (h.acquired key' held hheld p _ hp heq.symm).1.symm

/-- **Every step keeps it.** -/
theorem LockInv.step (h : LockInv s) (hstep : s.step sha256 a = some s') : LockInv s' := by
  cases a with
  | connect p name idle =>
    cases idle with
    | none =>
      obtain ⟨hp, hsome⟩ := Option.ite_none_right_eq_some.mp hstep
      obtain rfl := Option.some.inj hsome
      -- the new session is after all others
      have hnew {c : ℕ} (hc : c < s.opened) : c ≠ s.opened := Nat.ne_of_lt hc
      exact h.checkout (Nat.lt_succ_self _) (Nat.le_succ _) (List.Sublist.refl _)
        (fun hmem => hnew (h.idle_lt _ hmem) rfl) (fun q call hcall => hnew (h.call_lt q call hcall))
        (fun key held hheld => hnew (h.lock_lt key held hheld))
        (fun c' hc' => Function.update_of_ne hc' ..) rfl rfl
    | some c =>
      obtain ⟨⟨hp, hc⟩, hsome⟩ := Option.ite_none_right_eq_some.mp hstep
      obtain rfl := Option.some.inj hsome
      exact h.checkout (h.idle_lt c hc) (Nat.le_refl _) List.erase_sublist (h.idle_nodup.not_mem_erase)
        (fun q call hcall heq => h.busy q call hcall (heq ▸ hc))
        (fun key held hheld heq => h.free key held hheld (heq ▸ hc)) (fun _ _ => rfl) rfl rfl
  | attempt p reply =>
    change s.attemptStep p reply = some s' at hstep
    unfold Locking.attemptStep at hstep
    split at hstep
    · rename_i key c hp
      obtain ⟨hlive, hsome⟩ := Option.ite_none_right_eq_some.mp hstep
      obtain rfl := Option.some.inj hsome
      exact (h.answered hp hlive).2
    · rename_i key c executed hp
      obtain rfl := Option.some.inj hstep
      by_cases hexecuted : (s.live c && executed) = true
      · rw [if_pos hexecuted]
        obtain ⟨hlive, -⟩ := Bool.and_eq_true_iff.mp hexecuted
        -- as if the answer had come, and the call had ended then
        have hanswered := (h.answered hp hlive).2
        refine hanswered.leave (Function.update_self ..) (fun key => .inl rfl) (.inl rfl) rfl rfl ?_
        exact (Function.update_idem ..).symm
      · rw [if_neg hexecuted]
        exact h.leave hp (fun key => .inl rfl) (.inl rfl) rfl rfl rfl
    · cases hstep
  | exit p reply pooled =>
    change s.exitStep p reply pooled = some s' at hstep
    unfold Locking.exitStep at hstep
    split at hstep
    · rename_i key c _ hp
      obtain rfl := Option.some.inj hstep
      refine h.leave hp (fun key => .inl rfl) ?_ rfl rfl rfl
      cases pooled with
      | true => exact .inr ⟨rfl, h.no_lock hp (by rintro ⟨⟩)⟩
      | false => exact .inl rfl
    · rename_i key c hp
      obtain ⟨hlive, hsome⟩ := Option.ite_none_right_eq_some.mp hstep
      obtain rfl := Option.some.inj hsome
      obtain ⟨hholds, hunlock, hlocks, hfree⟩ := h.released hp hlive
      rw [hholds, hunlock]
      refine h.leave hp hlocks ?_ rfl rfl rfl
      cases pooled with
      | true => exact .inr ⟨rfl, hfree⟩
      | false => exact .inl rfl
    · rename_i key c executed hp
      obtain rfl := Option.some.inj hstep
      by_cases hexecuted : (s.live c && executed) = true
      · rw [if_pos hexecuted]
        obtain ⟨hlive, -⟩ := Bool.and_eq_true_iff.mp hexecuted
        obtain ⟨-, hunlock, hlocks, -⟩ := h.released hp hlive
        rw [hunlock]
        exact h.leave hp hlocks (.inl rfl) rfl rfl rfl
      · rw [if_neg hexecuted]
        exact h.leave hp (fun key => .inl rfl) (.inl rfl) rfl rfl rfl
    · cases hstep
  | die p =>
    obtain rfl := Option.some.inj hstep
    cases hp : s.calls p with
    | none =>
      have hsame : s.set p none = s := by
        rw [Locking.set, ← hp, Function.update_eq_self]
      rwa [hsame]
    | some call => exact h.leave hp (fun key => .inl rfl) (.inl rfl) rfl rfl rfl
  | discard c =>
    obtain rfl := Option.some.inj hstep
    exact h.discard c
  | drop c =>
    obtain rfl := Option.some.inj hstep
    exact h.drop c

/-! ## Runs -/

/-- It holds in every run. -/
theorem lockInv_reaches (h : Reaches (Locking.step sha256) (fun _ _ => True) Locking.init s) : LockInv s :=
  h.invariant LockInv lockInv_init fun _ hinv _ hstep => hinv.step hstep

/-- **In any run**, of the calls for one name that acquired the lock and whose sessions the server has not
ended there is one. No idle connection has a lock, nor has a call without having acquired it; so a call is
granted the lock if and only if nobody has it, and a release frees it. -/
theorem advisory_lock (h : Reaches (Locking.step sha256) (fun _ _ => True) Locking.init s) :
    (∀ p q, ∀ call ∈ s.calls p, ∀ call' ∈ s.calls q, call.key = call'.key →
      call.stage = .body true → s.live call.session = true →
      call'.stage = .body true → s.live call'.session = true → p = q)
    ∧ (∀ key, ∀ held ∈ s.locks key, s.live held.session = true ∧ held.session ∉ s.idle
      ∧ ∀ p, ∀ call ∈ s.calls p, call.session = held.session → call.key = key ∧ call.stage = .body true)
    ∧ (∀ p key c, s.calls p = some ⟨key, c, .trying⟩ → s.live c = true → s.grants c key = (s.locks key).isNone)
    ∧ ∀ p key c, s.calls p = some ⟨key, c, .body true⟩ → s.live c = true →
      s.holds c key = true ∧ (s.unlock c key).locks key = none := by
  have hinv := lockInv_reaches h
  refine ⟨?_, ?_, ?_, ?_⟩
  · intro p q call hcall call' hcall' hkey hstage hlive hstage' hlive'
    have hlock := hinv.locked p call hcall hstage hlive
    rw [hkey, hinv.locked q call' hcall' hstage' hlive'] at hlock
    -- the one lock has one session, and that has one call
    have hsession := congrArg Held.session (Option.some.inj hlock)
    exact hinv.own p q call hcall call' hcall' hsession.symm
  · exact fun key held hheld => ⟨hinv.alive key held hheld, hinv.free key held hheld,
      hinv.acquired key held hheld⟩
  · exact fun p key c hp hlive => (hinv.answered hp hlive).1
  · intro p key c hp hlive
    obtain ⟨hholds, hunlock, -⟩ := hinv.released hp hlive
    rw [hunlock]
    exact ⟨hholds, Function.update_self ..⟩

end Steps

/-- The digest of the name in the example. -/
def nightlyDigest (_ : List UInt8) : List UInt8 :=
  [24, 78, 95, 203, 189, 121, 134, 126, 245, 248, 54, 96, 160, 156, 74, 242,
    236, 243, 56, 122, 74, 135, 59, 249, 25, 254, 131, 208, 168, 197, 62, 8]

/-- Two replicas want the lock, and one gets it. The answer to its release is lost; the other call of the second
replica takes the connection of its first. -/
def nightlyRun : Locking :=
  runTo (Locking.step nightlyDigest) (fun _ _ => True) Locking.init
    [.connect 0 "nightly_backfill" none, .attempt 0 .answered, .connect 1 "nightly_backfill" none,
      .attempt 1 .answered, .exit 1 .answered true, .exit 0 (.failed true) true,
      .connect 2 "nightly_backfill" (some 1)]

/-- The lock is free again, and the next call is granted it. -/
theorem advisory_lock_nightlyRun : ∃ call ∈ nightlyRun.calls 2, call.session = 1
    ∧ nightlyRun.grants call.session call.key = true := by
  have hr : Reaches (Locking.step nightlyDigest) (fun _ _ => True) Locking.init nightlyRun :=
    reaches_runTo (by decide +kernel)
  obtain ⟨-, -, hgrants, -⟩ := advisory_lock hr
  have hp : nightlyRun.calls 2 = some ⟨advisoryKey nightlyDigest "nightly_backfill", 1,
      .trying⟩ := by decide +kernel
  have hfree : nightlyRun.locks (advisoryKey nightlyDigest "nightly_backfill") = none := by decide +kernel
  refine ⟨_, hp, rfl, ?_⟩
  rw [hgrants 2 _ 1 hp (by decide +kernel), hfree]
  rfl

end Jasil.Locks
