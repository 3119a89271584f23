import Jasil.State.Redis
import Jasil.Transition.Trace
import Mathlib.Data.List.Infix
import Mathlib.Algebra.Order.Round

/-! # The state backends agree
One run of calls on both backends, at the same instants. Redis counts milliseconds; memory adds seconds to
`time.monotonic()`, as doubles.

* **`Same`**: the same keys with the same values and, to the millisecond, the same expiries.
* **`Agree`**: a call returns or raises the same on both, leaves the same, and changes nothing when it raises.
* **`agree_iff`**: the calls of a run agree exactly when no expiry that memory stores is rounded to another
  millisecond, and each increment finds and makes numbers of 64 bits, or is refused by both and leaves no new
  expiry. -/

namespace Jasil.State

variable {server : Server} {m : MemoryState} {db : Database} {now : ℤ} {call : Call}

/-! ## The clocks -/

/-- `time.monotonic()` at an instant of the server's clock. -/
def monotonic (now : ℤ) : Double := .nearest (now / 1000)

/-- The millisecond that an instant of memory is nearest to. -/
def millis (instant : Double) : ℤ := round (1000 * instant.value)

/-- An entry of the dictionary, by the clock of the server. -/
def Entry.inMillis (entry : Entry Double) : Entry ℤ := ⟨entry.value, entry.expiry.map millis⟩

/-- Memory keeps an expiry in so many seconds: later than now, and at the given millisecond. -/
def ExpiresAt (now seconds expiry : ℤ) : Prop :=
  monotonic now < monotonic now + (seconds : Double) ∧ millis (monotonic now + (seconds : Double)) = expiry

instance (now seconds expiry : ℤ) : Decidable (ExpiresAt now seconds expiry) :=
  inferInstanceAs (Decidable (_ ∧ _))

/-- Memory keeps an expiry, if one is asked for, at the millisecond that Redis keeps it at. -/
def Lasts (now : ℤ) (ttlSeconds : Option ℤ) : Prop :=
  ∀ seconds ∈ ttlSeconds, ExpiresAt now seconds (now + 1000 * seconds)

/-- The readings are in order. -/
theorem monotonic_mono {now' : ℤ} (h : now ≤ now') : monotonic now ≤ monotonic now' := by
  refine Double.nearest_mono (div_le_div_of_nonneg_right ?_ (by norm_num))
  exact_mod_cast h

/-- What expires in a later millisecond has not expired before now. -/
theorem monotonic_le_of_lt {instant : Double} (h : now < millis instant) : monotonic now ≤ instant := by
  have hround := abs_le.mp (abs_sub_round (1000 * instant.value))
  have hle : (now : ℚ) + 1 ≤ (millis instant : ℚ) := by exact_mod_cast h
  have hscaled : (now : ℚ) ≤ 1000 * instant.value := by
    unfold millis at hle
    linarith
  exact Double.nearest_le (by linarith)

/-- What expires in an earlier millisecond does not expire after now. -/
theorem le_monotonic_of_lt {instant : Double} (h : millis instant < now) : instant ≤ monotonic now := by
  have hround := abs_le.mp (abs_sub_round (1000 * instant.value))
  have hle : (millis instant : ℚ) + 1 ≤ now := by exact_mod_cast h
  have hscaled : 1000 * instant.value ≤ now := by
    unfold millis at hle
    linarith
  exact Double.le_nearest (by linarith)

/-- **Unless the instant is hit**, an entry is alive by both clocks or by none. -/
theorem alive_inMillis {entry : Entry Double} (hmemory : entry.expiry ≠ some (monotonic now))
    (hredis : entry.inMillis.expiry ≠ some now) : alive now entry.inMillis = alive (monotonic now) entry := by
  rcases entry with ⟨value, _ | expiry⟩
  · rfl
  · have hne : expiry ≠ monotonic now := fun heq => hmemory (congrArg some heq)
    have hne' : millis expiry ≠ now := fun heq => hredis (congrArg some heq)
    show decide (now < millis expiry) = decide (monotonic now < expiry)
    rw [decide_eq_decide]
    constructor
    · exact fun h => lt_of_le_of_ne (monotonic_le_of_lt h) hne.symm
    · intro h
      by_contra hnot
      have hle := le_monotonic_of_lt (lt_of_le_of_ne (not_lt.mp hnot) hne')
      exact absurd h (not_lt.mpr hle)

/-- **Up to `2 ^ 42` seconds** an expiry is kept to the millisecond. -/
theorem expiresAt_of_small {seconds : ℤ} (hpos : 0 < seconds) (hnow : |now| < 1000 * 2 ^ 42)
    (hsum : |now + 1000 * seconds| < 1000 * 2 ^ 42) : ExpiresAt now seconds (now + 1000 * seconds) := by
  have hseconds : ((seconds : Double)).value = seconds := by
    refine nearestDouble_intCast ?_
    have hle := abs_le.mp hnow.le
    have hle' := abs_le.mp hsum.le
    omega
  -- the reading, and then the sum, are off by less than a quarter of a millisecond
  have hreading : |(monotonic now).value - now / 1000| ≤ 1 / 4096 := by
    refine abs_nearestDouble_sub_le ?_
    rw [abs_div, div_lt_iff₀ (by norm_num)]
    have hcast : |(now : ℚ)| < 1000 * 2 ^ 42 := by exact_mod_cast hnow
    simpa [mul_comm] using hcast
  have hexact : |(monotonic now).value + seconds| < 2 ^ 42 := by
    have hcast : |(now : ℚ) + 1000 * seconds| + 1 ≤ 1000 * 2 ^ 42 := by exact_mod_cast hsum
    have hbounds := abs_le.mp (le_sub_iff_add_le.mpr hcast)
    have hoff := abs_le.mp hreading
    rw [abs_lt]
    constructor <;> linarith
  have hadded : |(monotonic now + (seconds : Double)).value - ((monotonic now).value + seconds)| ≤ 1 / 4096 := by
    have h := abs_nearestDouble_sub_le hexact
    rw [← hseconds] at h ⊢
    exact h
  rw [abs_le] at hreading hadded
  constructor
  · show (monotonic now).value < (monotonic now + (seconds : Double)).value
    have hone : (1 : ℚ) ≤ seconds := by exact_mod_cast hpos
    linarith
  · rw [millis, round_eq, Int.floor_eq_iff]
    push_cast
    constructor <;> linarith

/-! ## Agreement -/

/-- The same keys, values and expiries, and nothing else in the database. -/
structure Same (memory : Live Double Key) (redis : Live ℤ Bytes) : Prop where
  entries : ∀ key, (memory key).map Entry.inMillis = redis (utf8 key)
  texts : ∀ bytes, redis bytes ≠ none → ∃ key, bytes = utf8 key

/-- **The backends agree on a call.** -/
structure Agree (server : Server) (m : MemoryState) (db : Database) (now : ℤ) (call : Call) : Prop where
  reply : (m.call (monotonic now) call).1 = (RedisState.call server db now call).1
  stored : Same (live (monotonic now) (m.call (monotonic now) call).2.data)
    (live now (RedisState.call server db now call).2)
  unchanged : ∀ e, (m.call (monotonic now) call).1 = .error e →
    live (monotonic now) (m.call (monotonic now) call).2.data = live (monotonic now) m.data
      ∧ live now (RedisState.call server db now call).2 = live now db

/-- The numbers of an increment are numbers of 64 bits, and its expiry is kept; or memory refuses it too and
there is no expiry that Redis could change. -/
def Counts (server : Server) (now : ℤ) (found : Option (Entry Double)) (amount : ℤ)
    (ttlSeconds : Option ℤ) : Prop :=
  ((∃ current, found.elim (some 0) (fun entry => server.readInteger entry.value) = some current
      ∧ Int64 amount ∧ Int64 (current + amount)) ∧ Lasts now ttlSeconds)
  ∨ ((∀ current, found.elim (.ok 0) (fun entry => parseInteger entry.value) = .ok current →
        maxStrDigits < (toString (current + amount).natAbs).length)
      ∧ ∀ entry ∈ found, ∀ seconds ∈ ttlSeconds, entry.inMillis.expiry = some (now + 1000 * seconds))

/-- **The condition on a call** and on the dictionary before it, unless the call is refused for its expiry:
memory keeps the expiry that it stores, and an increment counts in both backends or in none. -/
def Meets (server : Server) (m : MemoryState) (now : ℤ) : Call → Prop
  | .set _ _ ttlSeconds => (∀ ttl ∈ ttlSeconds, 0 < ttl) → Lasts now ttlSeconds
  | .setIfAbsent key _ ttlSeconds =>
    (∀ ttl ∈ ttlSeconds, 0 < ttl) → live (monotonic now) m.data key = none → Lasts now ttlSeconds
  | .incr key amount ttlSeconds =>
    (∀ ttl ∈ ttlSeconds, 0 < ttl) → Counts server now (live (monotonic now) m.data key) amount ttlSeconds
  | _ => True

/-- The expiry that a call asks for. -/
def Call.ttl : Call → Option ℤ
  | .set _ _ ttlSeconds | .incr _ _ ttlSeconds | .setIfAbsent _ _ ttlSeconds => ttlSeconds
  | _ => none

/-- The expiry that a call asks for is within the range of Redis. -/
def Call.InRange (now : ℤ) (call : Call) : Prop := ∀ ttl ∈ call.ttl, now + 1000 * ttl < 2 ^ 63

/-! ## Both sides of a change -/

namespace Same

variable {memory : Live Double Key} {redis : Live ℤ Bytes}

/-- **An entry that is changed on both sides**: they stay the same exactly when it is the same entry. -/
theorem update_iff (h : Same memory redis) {key : Key} {entry : Option (Entry Double)}
    {entry' : Option (Entry ℤ)} :
    Same (Function.update memory key entry) (Function.update redis (utf8 key) entry')
      ↔ entry.map Entry.inMillis = entry' := by
  constructor
  · intro hsame
    have hentry := hsame.entries key
    rw [Function.update_self, Function.update_self] at hentry
    exact hentry
  · rintro rfl
    constructor
    · intro other
      by_cases hkey : other = key
      · rw [hkey, Function.update_self, Function.update_self]
      · rw [Function.update_of_ne hkey, Function.update_of_ne (utf8_injective.ne hkey)]
        exact h.entries other
    · intro bytes hbytes
      by_cases hkey : bytes = utf8 key
      · exact ⟨key, hkey⟩
      · rw [Function.update_of_ne hkey] at hbytes
        exact h.texts bytes hbytes

/-- What is erased on both sides. -/
theorem erase (h : Same memory redis) (key : Key) :
    Same (Function.update memory key none) (Function.update redis (utf8 key) none) :=
  h.update_iff.mpr rfl

/-- A key is missing on both sides. -/
theorem eq_none_iff (h : Same memory redis) (key : Key) : memory key = none ↔ redis (utf8 key) = none := by
  rw [← h.entries, Option.map_eq_none_iff]

/-- The values are the same. -/
theorem values (h : Same memory redis) (key : Key) :
    (memory key).map Entry.value = (redis (utf8 key)).map Entry.value := by
  rw [← h.entries, Option.map_map]
  rfl

/-- **What does not expire until later stays the same**, unless an expiry is hit. -/
theorem later {now' : ℤ} (h : Same (live (monotonic now) m.data) (live now db)) (hle : now ≤ now')
    (hhit : NotHit now' db) (hmemory : NotHit (monotonic now') m.data) :
    Same (live (monotonic now') m.data) (live now' db) where
  entries key := by
    have hentry := h.entries key
    rw [live_later (monotonic_mono hle), live_later hle, ← hentry]
    cases hfound : live (monotonic now) m.data key with
    | none => rfl
    | some entry =>
      rw [hfound] at hentry
      have halive := alive_inMillis (hmemory key entry (Option.filter_eq_some_iff.mp hfound).1)
        (hhit _ _ (Option.filter_eq_some_iff.mp hentry.symm).1)
      rw [Option.map_some, Option.filter_some, Option.filter_some, halive]
      split <;> rfl
  texts bytes hbytes := by
    refine h.texts bytes fun hnone => hbytes ?_
    rw [live_later hle, hnone]
    rfl

end Same

/-! ## Numbers -/

/-- A numeral without leading zeros has no more digits than its value allows. -/
theorem length_le_of_isDecimal {digits : Bytes} (h : isDecimal digits = true) :
    10 ^ (digits.length - 1) ≤ naturalOf digits ∨ digits.length ≤ 1 := by
  have hfold (ds : Bytes) (n : ℕ) :
      n * 10 ^ ds.length ≤ ds.foldl (fun n digit => 10 * n + (digit.toNat - 48)) n := by
    induction ds generalizing n with
    | nil => exact (Nat.mul_one n).le
    | cons d ds ih =>
      have hshift : n * 10 ^ (ds.length + 1) = 10 * n * 10 ^ ds.length := by
        rw [Nat.pow_succ, ← Nat.mul_assoc, Nat.mul_right_comm, Nat.mul_comm n 10]
      calc n * 10 ^ (ds.length + 1) = 10 * n * 10 ^ ds.length := hshift
        _ ≤ (10 * n + (d.toNat - 48)) * 10 ^ ds.length := Nat.mul_le_mul_right _ (Nat.le_add_right _ _)
        _ ≤ _ := ih _
  match digits, h with
  | [_], _ => exact Or.inr le_rfl
  | digit :: next :: rest, h =>
    left
    rw [isDecimal, Bool.and_eq_true, decide_eq_true_iff] at h
    · have hdigit : 49 ≤ digit.toNat := UInt8.le_iff_toNat_le.mp h.1.1
      have hle := hfold (next :: rest) (10 * 0 + (digit.toNat - 48))
      refine le_trans ?_ hle
      exact Nat.le_mul_of_pos_left _ (by omega)
    · exact fun heq => List.cons_ne_nil _ _ heq

/-- Memory reads what Redis reads. -/
theorem parseInteger_of_read {raw : Bytes} {n : ℤ} (h : server.readInteger raw = some n) :
    parseInteger raw = .ok n := by
  obtain ⟨hnumeral, rfl, hint⟩ := server.readInteger_spec raw n h
  have hshort : ¬ maxStrDigits < (digitsOf raw).2.length := by
    intro hlong
    rcases length_le_of_isDecimal hnumeral with hle | hle
    · have hbound : naturalOf (digitsOf raw).2 ≤ 2 ^ 63 := by
        unfold Int64 integerOf at hint
        split at hint
        · omega
        · omega
      have hpow : 10 ^ 19 ≤ 10 ^ ((digitsOf raw).2.length - 1) :=
        Nat.pow_le_pow_right (by decide) (by unfold maxStrDigits at hlong; omega)
      omega
    · unfold maxStrDigits at hlong
      omega
  rw [parseInteger, hnumeral, if_neg Bool.noConfusion, if_neg hshort]

/-- Memory writes every number of 64 bits. -/
theorem not_long_of_int64 {n : ℤ} (h : Int64 n) : ¬ maxStrDigits < (toString n.natAbs).length := by
  have hsmall : n.natAbs < 10 ^ 19 := by
    unfold Int64 at h
    omega
  have hle : (toString n.natAbs).length ≤ 19 := (Nat.length_repr_le_iff (by decide)).mpr hsmall
  unfold maxStrDigits
  omega

/-! ## Prefixes -/

namespace Same

variable {memory : Live Double Key} {redis : Live ℤ Bytes} {start : Key}

/-- Both drop what begins with the prefix. -/
theorem dropPrefix (h : Same memory redis) : Same (fun key => if start <+: key then none else memory key)
    (fun bytes => if utf8 start <+: bytes then none else redis bytes) where
  entries key := by
    by_cases hkey : start <+: key
    · rw [if_pos hkey, if_pos (utf8_prefix_iff.mpr hkey)]
      rfl
    · rw [if_neg hkey, if_neg (utf8_prefix_iff.not.mpr hkey), h.entries]
  texts bytes hbytes := by
    refine h.texts bytes fun hnone => hbytes ?_
    rw [hnone, ite_self]

/-- What Redis lists is what memory lists, as bytes. -/
theorem scan_eq_image (h : Same (live (monotonic now) m.data) (live now db)) (hhit : NotHit now db) :
    (server.scanIter (db.reap now) (utf8 (globEscape start ++ ['*']))).toFinset
      = (m.iterKeys (monotonic now) start).1.toFinset.image utf8 := by
  ext bytes
  rw [List.mem_toFinset, RedisState.mem_scan hhit, Finset.mem_image]
  constructor
  · rintro ⟨hlive, hstart⟩
    obtain ⟨key, rfl⟩ := h.texts bytes hlive
    refine ⟨key, ?_, rfl⟩
    rw [List.mem_toFinset]
    exact MemoryState.mem_matching.mpr ⟨(h.eq_none_iff key).not.mpr hlive, utf8_prefix_iff.mp hstart⟩
  · rintro ⟨key, hkey, rfl⟩
    obtain ⟨hlive, hstart⟩ := MemoryState.mem_matching.mp (List.mem_toFinset.mp hkey)
    exact ⟨(h.eq_none_iff key).not.mp hlive, utf8_prefix_iff.mpr hstart⟩

/-- The backends list the same keys. -/
theorem iterKeys_eq (h : Same (live (monotonic now) m.data) (live now db)) (hhit : NotHit now db) :
    (RedisState.iterKeys server db now start).1.toFinset = (m.iterKeys (monotonic now) start).1.toFinset := by
  ext key
  rw [List.mem_toFinset, RedisState.iterKeys, List.mem_eraseDups, List.mem_filterMap]
  constructor
  · rintro ⟨bytes, hbytes, hkey⟩
    rw [← List.mem_toFinset, scan_eq_image h hhit, Finset.mem_image] at hbytes
    obtain ⟨key', hmem, rfl⟩ := hbytes
    rw [ofUtf8_utf8, Option.some.injEq] at hkey
    exact hkey ▸ hmem
  · intro hmem
    refine ⟨utf8 key, ?_, ofUtf8_utf8 key⟩
    rw [← List.mem_toFinset, scan_eq_image h hhit]
    exact Finset.mem_image_of_mem utf8 hmem

end Same

/-! ## One call -/

section Step

/-- Both return the same, and leave the same. -/
theorem Agree.of_ok (reply : Reply) (hm : (m.call (monotonic now) call).1 = .ok reply)
    (hdb : (RedisState.call server db now call).1 = .ok reply)
    (hstored : Same (live (monotonic now) (m.call (monotonic now) call).2.data)
    (live now (RedisState.call server db now call).2)) :
    Agree server m db now call where
  reply := hm.trans hdb.symm
  stored := hstored
  unchanged _ he := nomatch hm.symm.trans he

/-- Both refuse the arguments. -/
theorem Agree.of_refused {e : StateError} (hsame : Same (live (monotonic now) m.data) (live now db))
    (hm : m.call (monotonic now) call = (.error e, m))
    (hdb : RedisState.call server db now call = (.error e, db)) :
    Agree server m db now call := by
  constructor
  · rw [hm, hdb]
  · rw [hm, hdb]
    exact hsame
  · intro _ _
    rw [hm, hdb]
    exact ⟨rfl, rfl⟩

variable {key start : Key} {value : Bytes} {amount : ℤ} {ttlSeconds : Option ℤ}

/-- **Where both return the same and change one entry**, they agree exactly when it is the same entry. -/
theorem Agree.iff_of_ok (hsame : Same (live (monotonic now) m.data) (live now db)) (key : Key) (reply : Reply)
    {entry : Option (Entry Double)} {entry' : Option (Entry ℤ)}
    (hm : (m.call (monotonic now) call).1 = .ok reply)
    (hlive : live (monotonic now) (m.call (monotonic now) call).2.data
      = Function.update (live (monotonic now) m.data) key entry)
    (hdb : (RedisState.call server db now call).1 = .ok reply)
    (hlive' : live now (RedisState.call server db now call).2
    = Function.update (live now db) (utf8 key) entry') :
    Agree server m db now call ↔ entry.map Entry.inMillis = entry' := by
  rw [← hsame.update_iff, ← hlive, ← hlive']
  exact ⟨Agree.stored, Agree.of_ok reply hm hdb⟩

/-- Reading agrees. -/
theorem agree_get (hsame : Same (live (monotonic now) m.data) (live now db)) (hhit : NotHit now db) :
    Agree server m db now (.get key) := by
  obtain ⟨hvalue, hlive⟩ : (m.liveValue (monotonic now) key).1 = _ ∧ _ := MemoryState.liveValue_spec key
  refine Agree.of_ok (.value ((live (monotonic now) m.data key).map Entry.value)) ?_ ?_ ?_
  · exact congrArg (Except.ok ∘ Reply.value) hvalue
  · rw [hsame.values key, ← Database.get_eq hhit]
    rfl
  · show Same (live (monotonic now) (m.liveValue (monotonic now) key).2.data) (live now db)
    rw [hlive]
    exact hsame

/-- The expiry that is asked for is positive and within range. -/
theorem validTtl (hpos : ∀ ttl ∈ ttlSeconds, 0 < ttl) (hrange : ∀ ttl ∈ ttlSeconds, now + 1000 * ttl < 2 ^ 63) :
    RedisState.ValidTtl now ttlSeconds :=
  fun ttl hmem => ⟨hpos ttl hmem, hrange ttl hmem⟩

/-- An expiry is kept exactly when what is seen of the entry is what Redis stores. -/
theorem expiresAt_iff (value : Bytes) {seconds expiry : ℤ} : ExpiresAt now seconds expiry ↔
    (seen (monotonic now) ⟨value, some (monotonic now + (seconds : Double))⟩).map Entry.inMillis
      = some ⟨value, some expiry⟩ := by
  rw [seen, Option.filter_some]
  by_cases halive : alive (monotonic now) ⟨value, some (monotonic now + (seconds : Double))⟩ = true
  · rw [if_pos halive, ExpiresAt, and_iff_right (of_decide_eq_true halive), Option.map_some, Option.some.injEq]
    constructor
    · intro hmillis
      rw [Entry.inMillis, Option.map_some, hmillis]
    · exact fun h => Option.some.inj (congrArg Entry.expiry h)
  · rw [if_neg halive]
    exact iff_of_false (fun h => halive (decide_eq_true h.1)) (by rintro ⟨⟩)

/-- The same for an expiry that may be left out. -/
theorem lasts_iff (value : Bytes) : Lasts now ttlSeconds ↔
    (seen (monotonic now) ⟨value, MemoryState.expiryAt (monotonic now) ttlSeconds⟩).map Entry.inMillis
      = some ⟨value, expiryAt now ttlSeconds⟩ := by
  cases ttlSeconds with
  | none => exact iff_of_true (by rintro _ ⟨⟩) rfl
  | some seconds =>
    have hlasts : Lasts now (some seconds) ↔ ExpiresAt now seconds (now + 1000 * seconds) := by
      constructor
      · exact fun h => h seconds rfl
      · rintro h _ ⟨⟩
        exact h
    exact hlasts.trans (expiresAt_iff value)

/-- **Setting a value agrees** exactly when its expiry is kept. -/
theorem agree_set_iff (hsame : Same (live (monotonic now) m.data) (live now db)) (hhit : NotHit now db)
    (hrange : ∀ ttl ∈ ttlSeconds, now + 1000 * ttl < 2 ^ 63) :
    Agree server m db now (.set key value ttlSeconds)
      ↔ ((∀ ttl ∈ ttlSeconds, 0 < ttl) → Lasts now ttlSeconds) := by
  by_cases hpos : ∀ ttl ∈ ttlSeconds, 0 < ttl
  · obtain ⟨hreply, hlive⟩ := Database.set_spec (utf8 key) value false hhit (validTtl hpos hrange)
    have hmemory : m.call (monotonic now) (.set key value ttlSeconds) = (.ok .done,
        ⟨(m.sweepIfDue (monotonic now)).data.insert key ⟨value, MemoryState.expiryAt (monotonic now) ttlSeconds⟩,
          (m.sweepIfDue (monotonic now)).nextSweep⟩) := by
      rw [MemoryState.call, MemoryState.set, checkTtl_ok hpos]
      rfl
    have hredis : RedisState.call server db now (.set key value ttlSeconds)
        = (.ok .done, (db.set now (utf8 key) value ttlSeconds false).2) := by
      rw [RedisState.call, RedisState.set, checkTtl_ok hpos]
      dsimp only
      rw [hreply]
      rfl
    rw [forall_prop_of_true hpos, lasts_iff value]
    refine Agree.iff_of_ok hsame key .done (congrArg Prod.fst hmemory) ?_ (congrArg Prod.fst hredis) ?_
    · rw [hmemory, live_insert_seen, MemoryState.live_sweepIfDue]
    · rw [hredis, hlive]
  · refine iff_of_true (Agree.of_refused (e := .valueError) hsame ?_ ?_) fun h => absurd h hpos
    · rw [MemoryState.call, MemoryState.set, checkTtl_error hpos]
      rfl
    · rw [RedisState.call, RedisState.set, checkTtl_error hpos]
      rfl

/-- Deleting agrees. -/
theorem agree_delete (hsame : Same (live (monotonic now) m.data) (live now db)) :
    Agree server m db now (.delete key) := by
  refine Agree.of_ok .done rfl rfl ?_
  show Same (live (monotonic now) (m.data.erase key)) (live now ((db.reap now).erase (utf8 key)))
  rw [live_erase, live_erase, Database.live_reap]
  exact hsame.erase key

/-- **Setting what is absent agrees** exactly when the key is there, or its expiry is kept. -/
theorem agree_setIfAbsent_iff (hsame : Same (live (monotonic now) m.data) (live now db)) (hhit : NotHit now db)
    (hrange : ∀ ttl ∈ ttlSeconds, now + 1000 * ttl < 2 ^ 63) :
    Agree server m db now (.setIfAbsent key value ttlSeconds)
      ↔ ((∀ ttl ∈ ttlSeconds, 0 < ttl) → live (monotonic now) m.data key = none → Lasts now ttlSeconds) := by
  by_cases hpos : ∀ ttl ∈ ttlSeconds, 0 < ttl
  · have hset := Database.set_spec (utf8 key) value true hhit (validTtl hpos hrange)
    have hread : ((m.sweepIfDue (monotonic now)).liveValue (monotonic now) key).1.isSome = true
        ↔ live (monotonic now) m.data key ≠ none := by
      rw [(MemoryState.liveValue_spec key).1, MemoryState.live_sweepIfDue, Option.isSome_map,
        Option.isSome_iff_ne_none]
    rw [forall_prop_of_true hpos]
    by_cases htaken : live (monotonic now) m.data key ≠ none
    · rw [if_pos ⟨rfl, (hsame.eq_none_iff key).not.mp htaken⟩] at hset
      refine iff_of_true (Agree.of_ok (.stored false) ?_ ?_ ?_) fun hnone => absurd hnone htaken
      · rw [MemoryState.call, MemoryState.setIfAbsent, checkTtl_ok hpos]
        dsimp only
        rw [if_pos (hread.mpr htaken)]
        rfl
      · rw [RedisState.call, RedisState.setIfAbsent, checkTtl_ok hpos]
        dsimp only
        rw [hset.1]
        rfl
      · rw [MemoryState.call, MemoryState.setIfAbsent, RedisState.call, RedisState.setIfAbsent, checkTtl_ok hpos]
        dsimp only
        rw [if_pos (hread.mpr htaken), hset.2, MemoryState.live_liveValue]
        exact hsame
    · have hnone := not_not.mp htaken
      rw [if_neg fun h => h.2 ((hsame.eq_none_iff key).mp hnone)] at hset
      have hmemory : m.call (monotonic now) (.setIfAbsent key value ttlSeconds) = (.ok (.stored true),
          let read := ((m.sweepIfDue (monotonic now)).liveValue (monotonic now) key).2
          ⟨read.data.insert key ⟨value, MemoryState.expiryAt (monotonic now) ttlSeconds⟩, read.nextSweep⟩) := by
        rw [MemoryState.call, MemoryState.setIfAbsent, checkTtl_ok hpos]
        dsimp only
        rw [if_neg (hread.not.mpr htaken)]
        rfl
      have hredis : RedisState.call server db now (.setIfAbsent key value ttlSeconds)
          = (.ok (.stored true), (db.set now (utf8 key) value ttlSeconds true).2) := by
        rw [RedisState.call, RedisState.setIfAbsent, checkTtl_ok hpos]
        dsimp only
        rw [hset.1]
        rfl
      rw [forall_prop_of_true hnone, lasts_iff value]
      refine Agree.iff_of_ok hsame key (.stored true) (congrArg Prod.fst hmemory) ?_
        (congrArg Prod.fst hredis) ?_
      · rw [hmemory, live_insert_seen, MemoryState.live_liveValue]
      · rw [hredis, hset.2]
  · refine iff_of_true (Agree.of_refused (e := .valueError) hsame ?_ ?_) fun h => absurd h hpos
    · rw [MemoryState.call, MemoryState.setIfAbsent, checkTtl_error hpos]
      rfl
    · rw [RedisState.call, RedisState.setIfAbsent, checkTtl_error hpos]
      rfl

/-- Taking a value agrees. -/
theorem agree_getAndDelete (hsame : Same (live (monotonic now) m.data) (live now db)) (hhit : NotHit now db) :
    Agree server m db now (.getAndDelete key) := by
  obtain ⟨hvalue, hlive⟩ : (m.liveValue (monotonic now) key).1 = _ ∧ _ := MemoryState.liveValue_spec key
  refine Agree.of_ok (.value ((live (monotonic now) m.data key).map Entry.value)) ?_ ?_ ?_
  · exact congrArg (Except.ok ∘ Reply.value) hvalue
  · rw [hsame.values key, ← Database.get_eq hhit]
    rfl
  · rw [MemoryState.call, MemoryState.getAndDelete]
    dsimp only
    show Same _ (live now ((db.reap now).erase (utf8 key)))
    rw [live_erase, Database.live_reap, hvalue]
    by_cases hfound : live (monotonic now) m.data key = none
    · have herased := hsame.erase key
      rw [← hfound, Function.update_eq_self] at herased
      rw [hfound]
      show Same (live (monotonic now) (m.liveValue (monotonic now) key).2.data) _
      rw [hlive]
      exact herased
    · rw [Option.isSome_map, if_pos (Option.isSome_iff_ne_none.mpr hfound)]
      dsimp only
      rw [live_erase, hlive]
      exact hsame.erase key

/-- Deleting a prefix agrees. -/
theorem agree_deletePrefix (hsame : Same (live (monotonic now) m.data) (live now db)) (hhit : NotHit now db) :
    Agree server m db now (.deletePrefix start) := by
  by_cases hstart : start = []
  · refine Agree.of_refused (e := .valueError) hsame ?_ ?_
    · rw [MemoryState.call, MemoryState.deletePrefix, checkPrefix, if_pos hstart]
      rfl
    · rw [RedisState.call, RedisState.deletePrefix, checkPrefix, if_pos hstart]
      rfl
  · obtain ⟨hcount, hlive⟩ : (m.deletePrefix (monotonic now) start).1 = _ ∧ _ :=
      MemoryState.deletePrefix_spec hstart
    obtain ⟨hcount', hlive'⟩ := RedisState.deletePrefix_spec server hhit hstart
    refine Agree.of_ok (.number (m.iterKeys (monotonic now) start).1.toFinset.card) ?_ ?_ ?_
    · rw [MemoryState.call]
      dsimp only
      rw [hcount]
      rfl
    · rw [RedisState.call]
      dsimp only
      rw [hcount', hsame.scan_eq_image hhit, Finset.card_image_of_injective _ utf8_injective]
      rfl
    · rw [MemoryState.call, RedisState.call]
      dsimp only
      rw [hlive, hlive']
      exact hsame.dropPrefix

/-- Listing a prefix agrees. -/
theorem agree_iterKeys (hsame : Same (live (monotonic now) m.data) (live now db)) (hhit : NotHit now db) :
    Agree server m db now (.iterKeys start) := by
  refine Agree.of_ok (.keys (m.iterKeys (monotonic now) start).1.toFinset) rfl ?_ ?_
  · rw [← hsame.iterKeys_eq hhit]
    rfl
  · show Same (live (monotonic now) (m.iterKeys (monotonic now) start).2.data) (live now db)
    rw [MemoryState.live_iterKeys]
    exact hsame

/-- An entry stays as it is exactly when its expiry does. -/
theorem update_eq_self_iff {redis : Live ℤ Bytes} {bytes : Bytes} {entry : Entry ℤ} {expiry : Option ℤ}
    (h : redis bytes = some entry) :
    Function.update redis bytes (some { entry with expiry := expiry }) = redis ↔ entry.expiry = expiry := by
  rw [Function.update_eq_self_iff, h, Option.some.injEq]
  constructor
  · intro heq
    rw [← heq]
  · rintro rfl
    rfl

/-- What Redis reads of an entry does not depend on its expiry. -/
theorem elim_inMillis (found : Option (Entry Double)) :
    (found.map Entry.inMillis).elim (some 0) (fun entry => server.readInteger entry.value)
      = found.elim (some 0) fun entry => server.readInteger entry.value := by
  cases found with
  | none => rfl
  | some entry => rfl

/-- Memory reads what Redis reads. -/
theorem current_of_reads (hsame : Same (live (monotonic now) m.data) (live now db)) {current : ℤ}
    (hreads : Database.Reads server (live now db (utf8 key)) amount current) :
    MemoryState.current (live (monotonic now) m.data key) = .ok current := by
  have hread := hreads.1
  rw [← hsame.entries, elim_inMillis] at hread
  cases hfound : live (monotonic now) m.data key with
  | none =>
    rw [hfound] at hread
    exact congrArg Except.ok (Option.some.inj hread)
  | some entry =>
    rw [hfound] at hread
    exact parseInteger_of_read hread

/-- **What counts in both**: they agree exactly when the expiry that is asked for is kept. -/
theorem agree_incr_of_reads (hsame : Same (live (monotonic now) m.data) (live now db)) (hhit : NotHit now db)
    (hvalid : RedisState.ValidTtl now ttlSeconds) {current : ℤ}
    (hreads : Database.Reads server (live now db (utf8 key)) amount current) :
    Agree server m db now (.incr key amount ttlSeconds) ↔ Lasts now ttlSeconds := by
  obtain ⟨hreply, hlive⟩ :=
    MemoryState.incr_of_ok hvalid.pos (current_of_reads hsame hreads) (not_long_of_int64 hreads.2.2)
  obtain ⟨hreply', hlive'⟩ := RedisState.incr_of_reads hhit hvalid hreads
  have hm : (m.call (monotonic now) (.incr key amount ttlSeconds)).1 = .ok (.number (current + amount)) :=
    congrArg (Except.map Reply.number) hreply
  have hdb : (RedisState.call server db now (.incr key amount ttlSeconds)).1
      = .ok (.number (current + amount)) :=
    congrArg (Except.map Reply.number) hreply'
  refine (Agree.iff_of_ok hsame key _ hm hlive hdb hlive').trans ?_
  cases ttlSeconds with
  | some seconds =>
    have hlasts : Lasts now (some seconds) ↔ _ := lasts_iff (decimal (current + amount))
    exact hlasts.symm
  | none =>
    -- the entry keeps the expiry that it had
    refine iff_of_true ?_ (by rintro _ ⟨⟩)
    rw [← hsame.entries key]
    cases hfound : live (monotonic now) m.data key with
    | none => rfl
    | some entry =>
      have halive : alive (monotonic now) ⟨decimal (current + amount), entry.expiry⟩ = true :=
        (Option.filter_eq_some_iff.mp hfound).2
      show (seen (monotonic now) ⟨decimal (current + amount), entry.expiry⟩).map Entry.inMillis = _
      rw [seen_of_alive halive]
      rfl

/-- **What Redis refuses**: they agree exactly when memory refuses it too and there is no expiry to change. -/
theorem agree_incr_of_not_reads (hsame : Same (live (monotonic now) m.data) (live now db)) (hhit : NotHit now db)
    (hvalid : RedisState.ValidTtl now ttlSeconds)
    (hreads : ¬ ∃ current, Database.Reads server (live now db (utf8 key)) amount current) :
    Agree server m db now (.incr key amount ttlSeconds)
      ↔ (∀ current, MemoryState.current (live (monotonic now) m.data key) = .ok current →
          maxStrDigits < (toString (current + amount).natAbs).length)
        ∧ ∀ entry ∈ live (monotonic now) m.data key, ∀ seconds ∈ ttlSeconds,
          entry.inMillis.expiry = some (now + 1000 * seconds) := by
  obtain ⟨hreply', hlive'⟩ := RedisState.incr_of_not_reads hhit hvalid hreads
  by_cases hrefused : ∀ n, MemoryState.current (live (monotonic now) m.data key) = .ok n →
      maxStrDigits < (toString (n + amount).natAbs).length
  · rw [and_iff_right hrefused]
    obtain ⟨hreply, hlive⟩ := MemoryState.incr_of_refused hvalid.pos hrefused
    -- both refuse, and the expiry is left to compare
    have hunchanged : live now (RedisState.incr server db now key amount ttlSeconds).2 = live now db
        ↔ ∀ entry ∈ live (monotonic now) m.data key, ∀ seconds ∈ ttlSeconds,
          entry.inMillis.expiry = some (now + 1000 * seconds) := by
      rw [hlive']
      cases ttlSeconds with
      | none => exact iff_of_true rfl fun _ _ _ h => by cases h
      | some seconds =>
        have hentry := hsame.entries key
        rw [Option.elim_some, withExpiry]
        cases hfound : live (monotonic now) m.data key with
        | none =>
          rw [hfound] at hentry
          rw [← hentry]
          exact iff_of_true rfl fun _ h => by cases h
        | some entry =>
          rw [hfound] at hentry
          rw [← hentry]
          dsimp only [Option.map_some]
          rw [update_eq_self_iff hentry.symm]
          constructor
          · rintro hexpiry _ ⟨⟩ _ ⟨⟩
            exact hexpiry
          · exact fun h => h entry rfl seconds rfl
    have hsaid : (m.call (monotonic now) (.incr key amount ttlSeconds)).1 = .error .valueError :=
      congrArg (Except.map Reply.number) hreply
    rw [← hunchanged]
    constructor
    · exact fun hagree => (hagree.unchanged _ hsaid).2
    · intro hsameRedis
      refine ⟨hsaid.trans (congrArg (Except.map Reply.number) hreply').symm, ?_, fun _ _ => ⟨hlive, hsameRedis⟩⟩
      show Same (live (monotonic now) (m.incr (monotonic now) key amount ttlSeconds).2.data)
        (live now (RedisState.incr server db now key amount ttlSeconds).2)
      rw [hlive, hsameRedis]
      exact hsame
  · -- memory counts on
    refine iff_of_false (fun hagree => ?_) fun h => hrefused h.1
    push Not at hrefused
    obtain ⟨n, hread, hshort⟩ := hrefused
    have hreply := (MemoryState.incr_of_ok hvalid.pos hread (not_lt.mpr hshort)).1
    have hsaid := hagree.reply
    change Except.map Reply.number (m.incr (monotonic now) key amount ttlSeconds).1
      = Except.map Reply.number (RedisState.incr server db now key amount ttlSeconds).1 at hsaid
    rw [hreply, hreply'] at hsaid
    cases hsaid

/-- **An increment agrees exactly when both count, or both refuse and no expiry changes.** -/
theorem agree_incr_iff (hsame : Same (live (monotonic now) m.data) (live now db)) (hhit : NotHit now db)
    (hrange : ∀ ttl ∈ ttlSeconds, now + 1000 * ttl < 2 ^ 63) :
    Agree server m db now (.incr key amount ttlSeconds)
      ↔ ((∀ ttl ∈ ttlSeconds, 0 < ttl) →
          Counts server now (live (monotonic now) m.data key) amount ttlSeconds) := by
  by_cases hpos : ∀ ttl ∈ ttlSeconds, 0 < ttl
  · rw [forall_prop_of_true hpos, Counts, ← elim_inMillis, hsame.entries]
    have hvalid := validTtl hpos hrange
    by_cases hreads : ∃ current, Database.Reads server (live now db (utf8 key)) amount current
    · -- what Redis reads and makes, memory reads and makes
      obtain ⟨current, hread⟩ := hreads
      rw [agree_incr_of_reads hsame hhit hvalid hread]
      refine ⟨fun hlasts => Or.inl ⟨⟨current, hread⟩, hlasts⟩, ?_⟩
      rintro (⟨-, hlasts⟩ | ⟨hrefused, -⟩)
      · exact hlasts
      · exact absurd (hrefused current (current_of_reads hsame hread)) (not_long_of_int64 hread.2.2)
    · rw [agree_incr_of_not_reads hsame hhit hvalid hreads]
      refine ⟨Or.inr, fun hcounts => hcounts.resolve_left ?_⟩
      rintro ⟨hread, -⟩
      exact hreads hread
  · refine iff_of_true (Agree.of_refused (e := .valueError) hsame ?_ ?_) fun h => absurd h hpos
    · rw [MemoryState.call, MemoryState.incr, checkTtl_error hpos]
      rfl
    · rw [RedisState.call]
      unfold RedisState.incr
      rw [checkTtl_error hpos]
      rfl

/-- **One call**: the backends agree exactly when it meets the condition. -/
theorem agree_iff_meets (hsame : Same (live (monotonic now) m.data) (live now db)) (hhit : NotHit now db)
    (hrange : call.InRange now) : Agree server m db now call ↔ Meets server m now call := by
  cases call with
  | get key => exact iff_of_true (agree_get hsame hhit) trivial
  | set key value ttlSeconds => exact agree_set_iff hsame hhit hrange
  | delete key => exact iff_of_true (agree_delete hsame) trivial
  | incr key amount ttlSeconds => exact agree_incr_iff hsame hhit hrange
  | setIfAbsent key value ttlSeconds => exact agree_setIfAbsent_iff hsame hhit hrange
  | getAndDelete key => exact iff_of_true (agree_getAndDelete hsame hhit) trivial
  | deletePrefix start => exact iff_of_true (agree_deletePrefix hsame hhit) trivial
  | iterKeys start => exact iff_of_true (agree_iterKeys hsame hhit) trivial

end Step

/-! ## Runs -/

/-- Both backends after calls at their instants, made from `start` on. -/
def after (server : Server) (start : ℤ) (calls : List (ℤ × Call)) : MemoryState × Database :=
  calls.foldl (fun (m, db) (now, call) =>
      ((m.call (monotonic now) call).2, (RedisState.call server db now call).2))
    (MemoryState.new (monotonic start), ∅)

/-- No call is made before another one that was made already. -/
def InOrder (start : ℤ) (calls : List (ℤ × Call)) : Prop := (start :: calls.map Prod.fst).Pairwise (· ≤ ·)

/-- **A call that both backends can take**: its expiry is within the range of Redis, and no expiry is hit by its
instant. -/
structure Takes (server : Server) (start : ℤ) (past : List (ℤ × Call)) (c : ℤ × Call) : Prop where
  range : c.2.InRange c.1
  notHit : NotHit c.1 (after server start past).2
  notHitMemory : NotHit (monotonic c.1) (after server start past).1.data

section Run

variable {start : ℤ} {calls : List (ℤ × Call)}

/-- A run that is one call longer. -/
theorem after_concat (server : Server) (start : ℤ) (calls : List (ℤ × Call)) (now : ℤ) (call : Call) :
    after server start (calls ++ [(now, call)])
      = (((after server start calls).1.call (monotonic now) call).2,
        (RedisState.call server (after server start calls).2 now call).2) := by
  rw [after, List.foldl_append]
  rfl

/-- The last call of a run in order comes after the others. -/
theorem inOrder_concat :
    InOrder start (calls ++ [(now, call)]) ↔ InOrder start calls ∧ start ≤ now ∧ ∀ c ∈ calls, c.1 ≤ now := by
  rw [InOrder, List.map_append, ← List.cons_append, List.pairwise_append]
  constructor
  · rintro ⟨hcalls, -, hle⟩
    refine ⟨hcalls, hle _ List.mem_cons_self _ List.mem_cons_self, fun c hc => ?_⟩
    exact hle _ (List.mem_cons_of_mem _ (List.mem_map_of_mem hc)) _ List.mem_cons_self
  · rintro ⟨hcalls, hstart, hle⟩
    refine ⟨hcalls, List.pairwise_singleton _ _, ?_⟩
    intro instant hinstant instant' hinstant'
    obtain rfl := List.mem_singleton.mp hinstant'
    rcases List.mem_cons.mp hinstant with rfl | hmem
    · exact hstart
    · obtain ⟨c, hc, rfl⟩ := List.mem_map.mp hmem
      exact hle c hc

/-- **Backends that have agreed so far store the same.** -/
theorem same_after (horder : InOrder start (calls ++ [(now, call)]))
    (htakes : Takes server start calls (now, call))
    (hagree : EachAfter (fun past c => Agree server (after server start past).1 (after server start past).2
    c.1 c.2)
      calls) :
    Same (live (monotonic now) (after server start calls).1.data) (live now (after server start calls).2) := by
  obtain ⟨hcalls, hstart, hle⟩ := inOrder_concat.mp horder
  have hhit := htakes.notHit
  have hmemory := htakes.notHitMemory
  cases calls using List.reverseRecOn with
  | nil => exact ⟨fun _ => rfl, fun _ h => absurd rfl h⟩
  | append_singleton calls c =>
    obtain ⟨-, hlast⟩ := eachAfter_concat.mp hagree
    rw [after_concat server start calls c.1 c.2] at hhit hmemory ⊢
    exact hlast.stored.later (hle c (List.mem_append_right _ List.mem_cons_self)) hhit hmemory

/-- **The state backends agree** throughout a run exactly when memory keeps every expiry that it stores to the
millisecond, and every increment finds and makes numbers of 64 bits, or is refused by both and changes no
expiry. -/
theorem agree_iff (horder : InOrder start calls) (htakes : EachAfter (Takes server start) calls) :
    EachAfter (fun past c => Agree server (after server start past).1 (after server start past).2 c.1 c.2) calls
      ↔ EachAfter (fun past c => Meets server (after server start past).1 c.1 c.2) calls := by
  induction calls using List.reverseRecOn with
  | nil => exact iff_of_true eachAfter_nil eachAfter_nil
  | append_singleton calls c ih =>
    obtain ⟨hbefore, hlast⟩ := eachAfter_concat.mp htakes
    rw [eachAfter_concat, eachAfter_concat, ← ih (inOrder_concat.mp horder).1 hbefore]
    refine and_congr_right fun hagree => ?_
    exact agree_iff_meets (same_after horder hlast hagree) hlast.notHit hlast.range

end Run

/-! ## A server -/

/-- Patterns without character classes. -/
def glob : Bytes → Bytes → Bool
  | [], key => key.isEmpty
  | 42 :: pattern, key => key.tails.any (glob pattern)
  | 92 :: b :: pattern, key => key.head?.elim false fun b' => decide (b = b') && glob pattern key.tail
  | 63 :: pattern, key => key.head?.isSome && glob pattern key.tail
  | b :: pattern, key => key.head?.elim false fun b' => decide (b = b') && glob pattern key.tail

/-- A server that lists its keys in the order in which it stores them. -/
def plainServer : Server where
  -- it does not take a negative zero
  readInteger raw :=
    if isInteger raw = true ∧ raw ≠ [45, 48] ∧ Int64 (integerOf raw) then some (integerOf raw) else none
  globMatch := glob
  scanIter data pattern := data.keys.filter (glob pattern)
  annotation _ _ := "of pipeline caused error: "
  readInteger_spec raw n h := by
    rw [Option.ite_none_right_eq_some, Option.some.injEq] at h
    obtain ⟨⟨hnumeral, -, hint⟩, rfl⟩ := h
    exact ⟨hnumeral, rfl, hint⟩
  globMatch_star key := by
    rw [glob, List.any_eq_true]
    exact ⟨[], (List.mem_tails _ _).mpr List.nil_suffix, rfl⟩
  globMatch_escaped b pattern key := by
    rw [glob]
  globMatch_literal b pattern key h := by
    simp only [globBytes, List.mem_cons, List.not_mem_nil, or_false, not_or] at h
    rw [glob]
    · exact h.2.1
    · rintro _ _ rfl
      exact absurd rfl h.1
    · exact h.2.2.1
  mem_scanIter data pattern key := by
    rw [List.mem_filter, AList.mem_keys]

/-- A counter near the end of its range, and one more. -/
def countingPast (n : ℤ) : List (ℤ × Call) := [(0, .set ['n'] (decimal n) none), (1, .incr ['n'] 1 (some 60))]

/-- The counter is stored. -/
theorem takes_set (n : ℤ) : EachAfter (Takes plainServer 0) [((0 : ℤ), Call.set ['n'] (decimal n) none)] :=
  eachAfter_concat.mpr ⟨eachAfter_nil, nofun, notHit_of_entries nofun, notHit_of_entries nofun⟩

/-- Both backends count, and keep the minute. -/
theorem agree_iff_counting : EachAfter (fun past c =>
    Agree plainServer (after plainServer 0 past).1 (after plainServer 0 past).2 c.1 c.2) (countingPast 41) := by
  refine (agree_iff (by unfold InOrder; decide) (eachAfter_concat.mpr ⟨takes_set 41, ?_, ?_, ?_⟩)).mpr ?_
  · rintro _ ⟨⟩
    decide
  · exact notHit_of_entries (by decide +kernel)
  · exact notHit_of_entries (by decide +kernel)
  · have hset : EachAfter (fun past c => Meets plainServer (after plainServer 0 past).1 c.1 c.2)
        [((0 : ℤ), Call.set ['n'] (decimal 41) none)] :=
      eachAfter_concat.mpr ⟨eachAfter_nil, fun _ => by rintro _ ⟨⟩⟩
    refine eachAfter_concat.mpr ⟨hset, fun _ => Or.inl ⟨⟨41, by decide +kernel, by decide, by decide⟩, ?_⟩⟩
    rintro _ ⟨⟩
    exact expiresAt_of_small (by decide) (by decide) (by decide)

/-- Memory counts past 64 bits, and Redis refuses. -/
theorem not_agree : ¬ ∀ (server : Server) (start : ℤ) (calls : List (ℤ × Call)), InOrder start calls →
    EachAfter (Takes server start) calls →
    EachAfter (fun past c => Agree server (after server start past).1 (after server start past).2 c.1 c.2)
      calls := by
  intro h
  have htakes : EachAfter (Takes plainServer 0) (countingPast (2 ^ 63 - 1)) := by
    refine eachAfter_concat.mpr ⟨takes_set _, ?_, ?_, ?_⟩
    · rintro _ ⟨⟩
      decide
    · exact notHit_of_entries (by decide +kernel)
    · exact notHit_of_entries (by decide +kernel)
  have hagree := h plainServer 0 (countingPast (2 ^ 63 - 1)) (by unfold InOrder; decide) htakes [_] _ [] rfl
  exact absurd hagree.reply (by decide +kernel)

end Jasil.State
