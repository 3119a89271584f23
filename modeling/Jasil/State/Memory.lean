import Jasil.State.Provider
import Jasil.Text.Doubles

/-! # State in memory
The backend of one process: a dictionary whose expired keys are dropped when they are read, and by a sweep that a
write makes at most once a minute. Its instants are readings of `time.monotonic()`, which are doubles, as are the
expiries that it computes from them.

* **`MemoryState.call`**: what a call returns or raises, and the dictionary after it.
* **`liveValue_spec`, `live_sweepIfDue`**: reading and sweeping change nothing that is live. -/

namespace Jasil.State

/-! ## Integers -/

/-- `0|[1-9][0-9]*`. -/
def isDecimal : Bytes → Bool
  | [] => false
  | [digit] => decide (48 ≤ digit ∧ digit ≤ 57)
  | digit :: digits => decide (49 ≤ digit ∧ digit ≤ 57) && digits.all fun d => decide (48 ≤ d ∧ d ≤ 57)

/-- The sign of a number is a minus, and the rest of it its digits. -/
def digitsOf : Bytes → Bool × Bytes
  | 45 :: digits => (true, digits)
  | digits => (false, digits)

/-- `_INTEGER.fullmatch`. -/
def isInteger (raw : Bytes) : Bool := isDecimal (digitsOf raw).2

/-- The number that digits spell. -/
def naturalOf (digits : Bytes) : ℕ := digits.foldl (fun n digit => 10 * n + (digit.toNat - 48)) 0

/-- The number that is spelled. -/
def integerOf (raw : Bytes) : ℤ :=
  if (digitsOf raw).1 then -(naturalOf (digitsOf raw).2 : ℤ) else naturalOf (digitsOf raw).2

/-- `sys.get_int_max_str_digits()`: Python neither reads nor writes more digits. -/
def maxStrDigits : ℕ := 4300

/-- `_parse_integer`. -/
def parseInteger (raw : Bytes) : Except StateError ℤ :=
  if isInteger raw = false then .error .valueError
  else if maxStrDigits < (digitsOf raw).2.length then .error .valueError
  else .ok (integerOf raw)

/-- `str(new_value).encode()`. -/
def encodeInteger (n : ℤ) : Except StateError Bytes :=
  if maxStrDigits < (toString n.natAbs).length then .error .valueError else .ok (decimal n)

/-! ## The dictionary -/

/-- `MemoryState`: `_data` and `_next_sweep`. -/
structure MemoryState where
  data : FiniteMap Key (Entry Double)
  nextSweep : Double

/-- `SWEEP_INTERVAL_SECONDS`. -/
def sweepIntervalSeconds : ℤ := 60

/-- `_is_expired`. -/
def isExpired (now : Double) (expiry : Option Double) : Bool := expiry.any (· ≤ now)

namespace MemoryState

/-- `__init__`. -/
def new (now : Double) : MemoryState := ⟨∅, now + sweepIntervalSeconds⟩

/-- `time.monotonic() + ttl_seconds`, rounded to a double. -/
def expiryAt (now : Double) (ttlSeconds : Option ℤ) : Option Double :=
  ttlSeconds.map fun (ttl : ℤ) => now + (ttl : Double)

variable (m : MemoryState) (now : Double)

/-- `_sweep_if_due`. -/
def sweepIfDue : MemoryState :=
  if now < m.nextSweep then m
  else ⟨m.data.retain fun _ entry => !isExpired now entry.expiry, now + sweepIntervalSeconds⟩

/-- `_live_value`. -/
def liveValue (key : Key) : Option Bytes × MemoryState :=
  match m.data.lookup key with
  | none => (none, m)
  | some entry =>
    if isExpired now entry.expiry then (none, { m with data := m.data.erase key })
    else (some entry.value, m)

/-- `get`. -/
def get (key : Key) : Option Bytes × MemoryState := m.liveValue now key

/-- `set`. -/
def set (key : Key) (value : Bytes) (ttlSeconds : Option ℤ) : Except StateError Unit × MemoryState :=
  match checkTtl ttlSeconds with
  | .error e => (.error e, m)
  | .ok () =>
    let m := m.sweepIfDue now
    (.ok (), { m with data := m.data.insert key ⟨value, expiryAt now ttlSeconds⟩ })

/-- `delete`. -/
def delete (key : Key) : MemoryState := { m with data := m.data.erase key }

/-- `incr`. -/
def incr (key : Key) (amount : ℤ) (ttlSeconds : Option ℤ) : Except StateError ℤ × MemoryState :=
  match checkTtl ttlSeconds with
  | .error e => (.error e, m)
  | .ok () =>
    let (currentBytes, m) := (m.sweepIfDue now).liveValue now key
    match currentBytes.elim (.ok 0) parseInteger with
    | .error e => (.error e, m)
    | .ok current =>
      let newValue := current + amount
      let expiry :=
        if ttlSeconds.isSome then expiryAt now ttlSeconds
        else if currentBytes.isSome then (m.data.lookup key).bind Entry.expiry
        else none
      match encodeInteger newValue with
      | .error e => (.error e, m)
      | .ok text => (.ok newValue, { m with data := m.data.insert key ⟨text, expiry⟩ })

/-- `set_if_absent`. -/
def setIfAbsent (key : Key) (value : Bytes) (ttlSeconds : Option ℤ) : Except StateError Bool × MemoryState :=
  match checkTtl ttlSeconds with
  | .error e => (.error e, m)
  | .ok () =>
    let (current, m) := (m.sweepIfDue now).liveValue now key
    if current.isSome then (.ok false, m)
    else (.ok true, { m with data := m.data.insert key ⟨value, expiryAt now ttlSeconds⟩ })

/-- `get_and_delete`. -/
def getAndDelete (key : Key) : Option Bytes × MemoryState :=
  let (value, m) := m.liveValue now key
  (value, if value.isSome then { m with data := m.data.erase key } else m)

/-- The value under a key is live. -/
def isLive (key : Key) : Bool := (m.liveValue now key).1.isSome

/-- `delete_prefix`. What has expired is not counted. -/
def deletePrefix (start : Key) : Except StateError ℕ × MemoryState :=
  match checkPrefix start with
  | .error e => (.error e, m)
  | .ok () =>
    let matching := m.data.keys.filter fun key => decide (start <+: key)
    (.ok (matching.countP (m.isLive now)), { m with data := (FiniteMap.eraseAll matching m.data).2 })

/-- `iter_keys`; reading evicts the keys that have expired. -/
def iterKeys (start : Key) : List Key × MemoryState :=
  let matching := m.data.keys.filter fun key => decide (start <+: key)
  (matching.filter (m.isLive now),
    { m with data := m.data.retain fun key entry => !(decide (start <+: key) && isExpired now entry.expiry) })

/-- A call on the backend. -/
def call : Call → Except StateError Reply × MemoryState
  | .get key => let (value, m) := m.get now key; (.ok (.value value), m)
  | .set key value ttl => let (done, m) := m.set now key value ttl; (done.map fun _ => .done, m)
  | .delete key => (.ok .done, m.delete key)
  | .incr key amount ttl => let (n, m) := m.incr now key amount ttl; (n.map .number, m)
  | .setIfAbsent key value ttl => let (stored, m) := m.setIfAbsent now key value ttl; (stored.map .stored, m)
  | .getAndDelete key => let (value, m) := m.getAndDelete now key; (.ok (.value value), m)
  | .deletePrefix start => let (n, m) := m.deletePrefix now start; (n.map fun n => .number n, m)
  | .iterKeys start => let (keys, m) := m.iterKeys now start; (.ok (.keys keys.toFinset), m)

/-! ## What the calls do to what is live -/

variable {m now}

/-- What has expired does not expire later. -/
theorem isExpired_eq (entry : Entry Double) : isExpired now entry.expiry = !alive now entry := by
  rcases entry with ⟨value, _ | expiry⟩
  · rfl
  · show decide (expiry ≤ now) = !decide (now < expiry)
    rw [← decide_not]
    exact decide_eq_decide.mpr not_lt.symm

/-- A sweep drops nothing that is live. -/
theorem live_sweepIfDue : live now (m.sweepIfDue now).data = live now m.data := by
  unfold sweepIfDue
  split
  · rfl
  · refine live_retain fun entry halive => ?_
    rw [isExpired_eq, halive]
    rfl

/-- **Reading a key gives what is live under it**, and leaves what is live. -/
theorem liveValue_spec (key : Key) : (m.liveValue now key).1 = (live now m.data key).map Entry.value
    ∧ live now (m.liveValue now key).2.data = live now m.data := by
  unfold liveValue
  cases hlookup : m.data.lookup key with
  | none =>
    refine ⟨?_, rfl⟩
    rw [live, hlookup]
    rfl
  | some entry =>
    dsimp only
    cases halive : alive now entry with
    | true =>
      rw [isExpired_eq, halive]
      refine ⟨?_, rfl⟩
      rw [live, hlookup, Option.filter_some, if_pos halive]
      rfl
    | false =>
      have hlive : live now m.data key = none := by
        rw [live, hlookup, Option.filter_some, halive]
        rfl
      rw [isExpired_eq, halive, hlive]
      refine ⟨rfl, ?_⟩
      show live now (m.data.erase key) = _
      rw [live_erase, ← hlive, Function.update_eq_self]

/-- A live entry stays in the dictionary when it is read. -/
theorem lookup_liveValue {key : Key} {entry : Entry Double} (h : live now m.data key = some entry) :
    (m.liveValue now key).2.data.lookup key = some entry := by
  rw [live, Option.filter_eq_some_iff] at h
  rw [liveValue, h.1]
  dsimp only
  rw [isExpired_eq, h.2]
  exact h.1

/-- A key counts as live when its entry is. -/
theorem isLive_iff {key : Key} : m.isLive now key = true ↔ live now m.data key ≠ none := by
  rw [isLive, (liveValue_spec key).1, Option.isSome_map, Option.isSome_iff_ne_none]

/-- What is live is in the dictionary. -/
theorem mem_of_live {key : Key} (h : live now m.data key ≠ none) : key ∈ m.data := by
  rw [← AList.lookup_isSome]
  rw [live] at h
  cases hlookup : m.data.lookup key with
  | none =>
    rw [hlookup] at h
    exact absurd rfl h
  | some entry => rfl

section Increment

variable {key : Key} {amount : ℤ} {ttlSeconds : Option ℤ}

/-- What an increment reads: nothing counts as 0. -/
def current (found : Option (Entry Double)) : Except StateError ℤ :=
    found.elim (.ok 0) fun entry => parseInteger entry.value

/-- An increment reads what is live. -/
theorem elim_liveValue (m : MemoryState) : ((m.sweepIfDue now).liveValue now key).1.elim (.ok 0) parseInteger
    = current (live now m.data key) := by
  rw [(liveValue_spec key).1, live_sweepIfDue]
  cases live now m.data key with
  | none => rfl
  | some entry => rfl

/-- Sweeping and reading leave what is live. -/
theorem live_liveValue (m : MemoryState) :
    live now ((m.sweepIfDue now).liveValue now key).2.data = live now m.data := by
  rw [(liveValue_spec key).2, live_sweepIfDue]

/-- **An increment that memory can read and write counts**; what it stores may have expired already. -/
theorem incr_of_ok {n : ℤ} (hpos : ∀ ttl ∈ ttlSeconds, 0 < ttl) (hread : current (live now m.data key) = .ok n)
    (hshort : ¬ maxStrDigits < (toString (n + amount).natAbs).length) :
    (m.incr now key amount ttlSeconds).1 = .ok (n + amount)
      ∧ live now (m.incr now key amount ttlSeconds).2.data = Function.update (live now m.data) key
        (seen now ⟨decimal (n + amount), expiryAfter (expiryAt now ttlSeconds) (live now m.data key)⟩) := by
  have hexpiry : (if ttlSeconds.isSome then expiryAt now ttlSeconds
      else if ((m.sweepIfDue now).liveValue now key).1.isSome then
        (((m.sweepIfDue now).liveValue now key).2.data.lookup key).bind Entry.expiry
      else none) = expiryAfter (expiryAt now ttlSeconds) (live now m.data key) := by
    cases ttlSeconds with
    | some seconds => rfl
    | none =>
      show (if ((m.sweepIfDue now).liveValue now key).1.isSome then _ else _)
        = (live now m.data key).bind Entry.expiry
      rw [(liveValue_spec key).1, live_sweepIfDue]
      cases hfound : live now m.data key with
      | none => rfl
      | some entry =>
        rw [← live_sweepIfDue] at hfound
        rw [lookup_liveValue hfound]
        rfl
  unfold incr
  rw [checkTtl_ok hpos]
  dsimp only
  rw [elim_liveValue, hread]
  dsimp only
  rw [encodeInteger, if_neg hshort, hexpiry]
  refine ⟨rfl, ?_⟩
  dsimp only
  rw [live_insert_seen, live_liveValue]

/-- **An increment that it cannot read or write is refused**, and changes nothing. -/
theorem incr_of_refused (hpos : ∀ ttl ∈ ttlSeconds, 0 < ttl)
    (hrefused : ∀ n, current (live now m.data key) = .ok n
    → maxStrDigits < (toString (n + amount).natAbs).length) :
    (m.incr now key amount ttlSeconds).1 = .error .valueError
      ∧ live now (m.incr now key amount ttlSeconds).2.data = live now m.data := by
  unfold incr
  rw [checkTtl_ok hpos]
  dsimp only
  rw [elim_liveValue]
  cases hread : current (live now m.data key) with
  | error e =>
    refine ⟨?_, live_liveValue m⟩
    -- it is the error of the parser
    cases hfound : live now m.data key with
    | none =>
      rw [hfound] at hread
      exact nomatch hread
    | some entry =>
      rw [hfound] at hread
      change parseInteger entry.value = .error e at hread
      unfold parseInteger at hread
      split at hread
      · exact congrArg _ (Except.error.inj hread).symm
      · split at hread
        · exact congrArg _ (Except.error.inj hread).symm
        · exact nomatch hread
  | ok n =>
    dsimp only
    rw [encodeInteger, if_pos (hrefused n hread)]
    exact ⟨rfl, live_liveValue m⟩

end Increment

section Prefix

variable {start key : Key}

/-- The dictionary's keys with the prefix that are live. -/
theorem mem_matching : key ∈ (m.data.keys.filter fun key => decide (start <+: key)).filter (m.isLive now)
    ↔ live now m.data key ≠ none ∧ start <+: key := by
  rw [List.mem_filter, List.mem_filter, isLive_iff, decide_eq_true_iff]
  constructor
  · rintro ⟨⟨-, hstart⟩, hlive⟩
    exact ⟨hlive, hstart⟩
  · rintro ⟨hlive, hstart⟩
    exact ⟨⟨mem_of_live hlive, hstart⟩, hlive⟩

/-- **What begins with the prefix is gone**, and what was live of it is counted. -/
theorem deletePrefix_spec (hstart : start ≠ []) :
    (m.deletePrefix now start).1 = .ok (m.iterKeys now start).1.toFinset.card
      ∧ live now (m.deletePrefix now start).2.data
        = fun key => if start <+: key then none else live now m.data key := by
  rw [deletePrefix, checkPrefix, if_neg hstart]
  constructor
  · dsimp only
    rw [List.countP_eq_length_filter, iterKeys, List.toFinset_card_of_nodup]
    exact (m.data.keys_nodup.filter _).filter _
  · funext key
    dsimp only
    have hmatching : key ∈ m.data.keys.filter (fun key => decide (start <+: key))
        ↔ key ∈ m.data.keys ∧ start <+: key := by
      rw [List.mem_filter, decide_eq_true_iff]
    rw [live, FiniteMap.lookup_eraseAll]
    by_cases hkey : start <+: key
    · rw [if_pos hkey]
      by_cases hmem : key ∈ m.data.keys
      · rw [if_pos (hmatching.mpr ⟨hmem, hkey⟩)]
        rfl
      · rw [AList.lookup_eq_none.mpr hmem, ite_self]
        rfl
    · rw [if_neg hkey, if_neg fun h => hkey (hmatching.mp h).2, live]

/-- Listing keys leaves what is live. -/
theorem live_iterKeys : live now (m.iterKeys now start).2.data = live now m.data := by
  funext key
  rw [iterKeys, live, FiniteMap.lookup_retain, Option.filter_filter, live]
  congr 1
  funext entry
  rw [isExpired_eq]
  cases alive now entry with
  | false => rw [Bool.and_false]
  | true => rw [Bool.not_true, Bool.and_false, Bool.not_false, Bool.and_true]

end Prefix

end MemoryState

end Jasil.State
