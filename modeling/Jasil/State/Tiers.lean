import Jasil.State.Agreement
import Jasil.Text.Numbers
import Jasil.Transition.Failing

/-! # Gates that close for longer as failures climb
`record_tiered_failure`: in memory under the lock of the dictionary, in Redis as a Lua script, whose numbers are
doubles. The instants of memory are doubles too.

* **`closeSeconds`**: for how long a count closes the gate; the last tier reached wins.
* **`MemoryState.recordTieredFailure`, `recordTieredFailureScript`**: the two implementations.
* **`tiered_agree_iff`**: the calls of a run agree exactly when rounding moves no expiry and no number that
  matters, and no gate is closed until the epoch. -/

namespace Jasil.State

open NumberText

/-! ## A call -/

/-- `record_tiered_failure(counter_key, gate_key, tiers, counter_ttl_seconds)`. -/
structure Failure where
  counterKey : Key
  gateKey : Key
  /-- A threshold and for how many seconds it closes the gate. -/
  tiers : List (ℤ × ℤ)
  counterTtlSeconds : ℤ

/-- `TieredFailureOutcome`. -/
structure TieredFailureOutcome where
  count : ℤ
  lockedUntilEpoch : Option ℤ
  newlyLocked : Bool
  deriving DecidableEq

/-- The loop over the tiers: the seconds of the last one whose threshold is reached, or 0. -/
def closeSeconds {α : Type} [LE α] [DecidableLE α] [Zero α] (tiers : List (α × α)) (count : α) : α :=
  tiers.foldl (fun lockSeconds tier => if tier.1 ≤ count then tier.2 else lockSeconds) 0

/-- What the loop finds is 0 or some tier's seconds. -/
theorem closeSeconds_mem {α : Type} [LE α] [DecidableLE α] [Zero α] (tiers : List (α × α)) (count : α) :
    closeSeconds tiers count = 0 ∨ ∃ tier ∈ tiers, closeSeconds tiers count = tier.2 := by
  induction tiers using List.reverseRecOn with
  | nil => exact Or.inl rfl
  | append_singleton tiers tier ih =>
    have hlast : closeSeconds (tiers ++ [tier]) count
        = if tier.1 ≤ count then tier.2 else closeSeconds tiers count := by
      rw [closeSeconds, List.foldl_append]
      rfl
    rw [hlast]
    split
    · exact Or.inr ⟨tier, List.mem_append_right _ List.mem_cons_self, rfl⟩
    · refine ih.imp_right ?_
      rintro ⟨tier', hmem, he⟩
      exact ⟨tier', List.mem_append_left _ hmem, he⟩

/-! ## In memory -/

namespace MemoryState

variable (m : MemoryState) (now : Double) (epoch : ℤ)

/-- The part of `record_tiered_failure` that counts, while the gate is open. -/
def countFailure (c : Failure) : Except StateError TieredFailureOutcome × MemoryState :=
  let (counterBytes, m) := m.liveValue now c.counterKey
  match counterBytes.elim (.ok 0) parseInteger with
  | .error e => (.error e, m)
  | .ok counted =>
    let count := counted + 1
    match encodeInteger count with
    | .error e => (.error e, m)
    | .ok text =>
      let m : MemoryState :=
        { m with data := m.data.insert c.counterKey ⟨text, some (now + (c.counterTtlSeconds : Double))⟩ }
      let lockSeconds := closeSeconds c.tiers count
      if 0 < lockSeconds then
        let gateUntil := epoch + lockSeconds
        match encodeInteger gateUntil with
        | .error e => (.error e, m)
        | .ok text =>
          (.ok ⟨count, some gateUntil, true⟩,
            { m with data := m.data.insert c.gateKey ⟨text, some (now + (lockSeconds : Double))⟩ })
      else (.ok ⟨count, none, false⟩, m)

/-- `record_tiered_failure`; `epoch` is `int(time.time())`. -/
def recordTieredFailure (c : Failure) : Except StateError TieredFailureOutcome × MemoryState :=
  let (gateBytes, m) := (m.sweepIfDue now).liveValue now c.gateKey
  match gateBytes with
  | none => m.countFailure now epoch c
  | some gateBytes =>
    match parseInteger gateBytes with
    | .error e => (.error e, m)
    | .ok gateUntil =>
      if epoch < gateUntil then
        -- already locked: the count is returned as it is
        let (counterBytes, m) := m.liveValue now c.counterKey
        match counterBytes.elim (.ok 0) parseInteger with
        | .error e => (.error e, m)
        | .ok count => (.ok ⟨count, some gateUntil, false⟩, m)
      else { m with data := m.data.erase c.gateKey }.countFailure now epoch c

end MemoryState

/-! ## In Redis -/

/-- **A Redis server that runs Lua scripts**, as far as the documentation of both goes. -/
structure Scripting extends Server where
  /-- `tonumber` of a text. -/
  toNumber : Bytes → Option ℚ
  /-- The text that a number is passed to a command as. -/
  numberText : ℚ → Bytes
  toNumber_decimal : ∀ n : ℤ, toNumber (decimal n) = some (nearestDouble n)
  /-- Seventeen digits are written before an exponent is. -/
  numberText_intCast : ∀ n : ℤ, n.natAbs < 10 ^ 17 → numberText n = decimal n
  readInteger_decimal : ∀ n, Int64 n → readInteger (decimal n) = some n

/-- `SETEX`. -/
def Database.setex (db : Database) (now : ℤ) (key : Bytes) (seconds : ℤ) (value : Bytes) :
    Except ResponseError Unit × Database :=
  if ¬ Database.ValidExpiry now seconds then (.error ⟨"invalid expire time in 'setex' command"⟩, db.reap now)
  else (.ok (), (db.reap now).insert key ⟨value, expiryAt now (some seconds)⟩)

/-- The integer that a number is returned as. -/
def toInteger (q : ℚ) : ℤ := if 0 ≤ q then ⌊q⌋ else ⌈q⌉

/-- What a Lua script does to the database: what it did stays done when a command fails. -/
abbrev Script := Failing ResponseError Database

namespace Scripting

variable (s : Scripting) (now : ℤ)

/-- A text that has to be a number. -/
def number (raw : Bytes) : Except ResponseError ℚ :=
  (s.toNumber raw).elim (.error ⟨"attempt to compare nil with number"⟩) .ok

/-- A number as the integer argument of a command. -/
def integerArgument (q : ℚ) : Except ResponseError ℤ :=
  (s.readInteger (s.numberText q)).elim (.error ⟨"value is not an integer or out of range"⟩) .ok

/-- The loop over `ARGV` from the third on. -/
def tierLoop (count : ℚ) : List Bytes → ℚ → Except ResponseError ℚ
  | threshold :: seconds :: rest, lockSeconds => do
    if (← s.number threshold) ≤ count then tierLoop count rest (← s.number seconds)
    else tierLoop count rest lockSeconds
  | _, lockSeconds => .ok lockSeconds

/-- The part of the script that counts. -/
def countFailureScript (gateKey counterKey : Bytes) (epoch counterTtl : ℚ) (tiers : List Bytes) :
    Script (ℤ × ℤ × ℤ) := do
  let counted ← Failing.call fun db => db.incrby s.toServer now counterKey 1
  let count := nearestDouble counted
  let _ ← Failing.call fun db =>
    match s.integerArgument counterTtl with
    | .error e => (.error e, db)
    | .ok seconds => db.expire now counterKey seconds
  let lockSeconds ← Failing.call fun db => (s.tierLoop count tiers 0, db)
  if 0 < lockSeconds then
    let gateUntil := nearestDouble (epoch + lockSeconds)
    Failing.call fun db =>
      match s.integerArgument lockSeconds with
      | .error e => (.error e, db)
      | .ok seconds => db.setex now gateKey seconds (s.numberText gateUntil)
    return (toInteger count, toInteger gateUntil, 1)
  else return (toInteger count, 0, 0)

/-- `_RECORD_TIERED_FAILURE_SCRIPT`. -/
def recordTieredFailureScript (gateKey counterKey : Bytes) (epoch counterTtl : Bytes) (tiers : List Bytes) :
    Script (ℤ × ℤ × ℤ) := do
  let epoch ← Failing.call fun db => (s.number epoch, db)
  let counterTtl ← Failing.call fun db => (s.number counterTtl, db)
  let gate ← Failing.call fun db => (.ok (db.get now gateKey), db)
  match gate with
  | none => s.countFailureScript now gateKey counterKey epoch counterTtl tiers
  | some gate =>
    let gateUntil ← Failing.call fun db => (s.number gate, db)
    if epoch < gateUntil then
      let current ← Failing.call fun db => (.ok (db.get now counterKey), db)
      return (toInteger ((current.bind s.toNumber).getD 0), toInteger gateUntil, 0)
    else
      Failing.call fun db => (.ok (), (db.del now [gateKey]).2)
      s.countFailureScript now gateKey counterKey epoch counterTtl tiers

end Scripting

/-- `record_tiered_failure`; `epoch` is `int(time.time())`. -/
def RedisState.recordTieredFailure (s : Scripting) (db : Database) (now epoch : ℤ) (c : Failure) :
    Except StateError TieredFailureOutcome × Database :=
  let (result, db) :=
    (s.recordTieredFailureScript now (utf8 c.gateKey) (utf8 c.counterKey) (decimal epoch)
      (decimal c.counterTtlSeconds) (c.tiers.flatMap fun tier => [decimal tier.1, decimal tier.2])).on db
  (translated (result.map fun (count, gateUntil, newlyLocked) =>
    ⟨count, if gateUntil = 0 then none else some gateUntil, decide (newlyLocked ≠ 0)⟩), db)

/-! ## What a call is given -/

/-- The canonical decimal of an integer of up to 53 binary digits. -/
def Canonical (raw : Bytes) : Prop := ∃ n : ℤ, n.natAbs < 2 ^ 53 ∧ raw = decimal n

/-- **A call that both backends can make**: two keys, durations within the range of Redis, clocks within 64
bits, and a counter and a gate that are absent or hold canonical decimals. `int(time.time())` is the integer
part of a float, and so is a float itself. -/
structure Usable (now epoch : ℤ) (redis : Live ℤ Bytes) (c : Failure) : Prop where
  keys : c.counterKey ≠ c.gateKey
  ttl : Database.ValidExpiry now c.counterTtlSeconds
  durations : ∀ tier ∈ c.tiers, 0 < tier.2 → Database.ValidExpiry now tier.2
  clocks : Int64 now ∧ Int64 (1000 * epoch) ∧ nearestDouble epoch = epoch
  stored : ∀ key ∈ [c.counterKey, c.gateKey], ∀ entry ∈ redis (utf8 key), Canonical entry.value

/-- The number that is stored under a key; nothing counts as 0. -/
def storedInteger {τ : Type} (found : Option (Entry τ)) : ℤ := found.elim 0 fun entry => integerOf entry.value

/-- The tiers as the script reads them. -/
def Failure.doubles (c : Failure) : List (ℚ × ℚ) :=
  c.tiers.map fun tier => (nearestDouble tier.1, nearestDouble tier.2)

/-- Memory keeps an expiry at the millisecond that the script asks for, and Redis takes it. -/
def Kept (now seconds rounded : ℤ) : Prop :=
  ExpiresAt now seconds (now + 1000 * rounded) ∧ now + 1000 * rounded < 2 ^ 63

instance (now seconds rounded : ℤ) : Decidable (Kept now seconds rounded) := inferInstanceAs (Decidable (_ ∧ _))

/-- **Rounding moves nothing that matters** for a count: the expiry of the counter is kept; and either neither
backend closes the gate, or both close it until the same second, which is not the epoch, and keep that expiry
too. The script takes the lifetime of the counter for `ttl`, closes the gate for `lockSeconds`, and until
`gateUntil`. -/
def Unmoved (now epoch count : ℤ) (c : Failure) (ttl lockSeconds gateUntil : ℤ) : Prop :=
  Kept now c.counterTtlSeconds ttl ∧
    ((closeSeconds c.tiers count ≤ 0 ∧ lockSeconds ≤ 0) ∨
      (0 < closeSeconds c.tiers count ∧ 0 < lockSeconds ∧ gateUntil = epoch + closeSeconds c.tiers count ∧
        gateUntil ≠ 0 ∧ Kept now (closeSeconds c.tiers count) lockSeconds))

instance (now epoch count : ℤ) (c : Failure) (ttl lockSeconds gateUntil : ℤ) :
    Decidable (Unmoved now epoch count c ttl lockSeconds gateUntil) := inferInstanceAs (Decidable (_ ∧ _))

/-- What the script computes for a count is not moved by its doubles. -/
def Exact (now epoch count : ℤ) (c : Failure) : Prop :=
  Unmoved now epoch count c (toInteger (nearestDouble c.counterTtlSeconds))
    (toInteger (closeSeconds c.doubles (count : ℚ)))
    (toInteger (nearestDouble (epoch + closeSeconds c.doubles (count : ℚ))))

instance (now epoch count : ℤ) (c : Failure) : Decidable (Exact now epoch count c) :=
  inferInstanceAs (Decidable (Unmoved ..))

/-- The gate is closed. -/
def Closed {τ : Type} (epoch : ℤ) (gate : Option (Entry τ)) : Prop :=
    ∃ entry ∈ gate, epoch < integerOf entry.value

/-! ## In memory -/

section Stored

variable {s : Scripting}

/-- A number below 2^53 is one of 64 bits. -/
theorem int64_of_natAbs_lt {n : ℤ} (h : n.natAbs ≤ 2 ^ 53) : Int64 n := by
  unfold Int64
  omega

/-- What is written for a number of 64 bits is read. -/
theorem integerOf_decimal (s : Scripting) {n : ℤ} (h : Int64 n) : integerOf (decimal n) = n :=
  (s.readInteger_spec _ _ (s.readInteger_decimal n h)).2.1

/-- A number of 64 bits is read back. -/
theorem parseInteger_decimal (s : Scripting) {n : ℤ} (h : Int64 n) : parseInteger (decimal n) = .ok n :=
  parseInteger_of_read (s.readInteger_decimal n h)

/-- What a canonical text is the text of. -/
theorem Canonical.spec (s : Scripting) {raw : Bytes} (h : Canonical raw) :
    parseInteger raw = .ok (integerOf raw) ∧ (integerOf raw).natAbs < 2 ^ 53
      ∧ raw = decimal (integerOf raw) := by
  obtain ⟨n, hn, rfl⟩ := h
  have hint := int64_of_natAbs_lt hn.le
  rw [integerOf_decimal s hint]
  exact ⟨parseInteger_decimal s hint, hn, rfl⟩

/-- A counter as memory reads it. -/
theorem elim_parseInteger {τ : Type} (s : Scripting) {found : Option (Entry τ)}
    (h : ∀ entry ∈ found, Canonical entry.value) :
    (found.map Entry.value).elim (.ok 0) parseInteger = .ok (storedInteger found) ∧
      (storedInteger found).natAbs < 2 ^ 53 := by
  cases found with
  | none => exact ⟨rfl, Nat.two_pow_pos 53⟩
  | some entry =>
    obtain ⟨hparse, hsmall, -⟩ := (h entry rfl).spec s
    exact ⟨hparse, hsmall⟩

end Stored

namespace MemoryState

variable {m : MemoryState} {now : Double} {epoch : ℤ} {c : Failure}

/-- The outcome of a count. -/
def outcome (epoch count : ℤ) (c : Failure) : TieredFailureOutcome :=
  if 0 < closeSeconds c.tiers count then ⟨count, some (epoch + closeSeconds c.tiers count), true⟩
  else ⟨count, none, false⟩

/-- What a count leaves. -/
def afterCount (memory : Live Double Key) (now : Double) (epoch count : ℤ) (c : Failure) : Live Double Key :=
  let counted := Function.update memory c.counterKey
    (seen now ⟨decimal count, some (now + (c.counterTtlSeconds : Double))⟩)
  if 0 < closeSeconds c.tiers count then
    Function.update counted c.gateKey (seen now ⟨decimal (epoch + closeSeconds c.tiers count),
      some (now + ((closeSeconds c.tiers count : ℤ) : Double))⟩)
  else counted

/-- **What memory counts.** -/
theorem countFailure_spec {counted : ℤ}
    (hread : ((live now m.data c.counterKey).map Entry.value).elim (.ok 0) parseInteger = .ok counted)
    (hshort : Int64 (counted + 1))
    (hgate : 0 < closeSeconds c.tiers (counted + 1) →
      ¬ maxStrDigits < (toString (epoch + closeSeconds c.tiers (counted + 1)).natAbs).length) :
    (m.countFailure now epoch c).1 = .ok (outcome epoch (counted + 1) c) ∧
      live now (m.countFailure now epoch c).2.data
        = afterCount (live now m.data) now epoch (counted + 1) c := by
  obtain ⟨hvalue, hlive⟩ := @liveValue_spec m now c.counterKey
  unfold countFailure outcome afterCount
  dsimp only
  rw [hvalue, hread]
  dsimp only
  rw [encodeInteger, if_neg (not_long_of_int64 hshort)]
  dsimp only
  split
  · rename_i hpos
    rw [encodeInteger, if_neg (hgate hpos)]
    dsimp only
    rw [live_insert_seen, live_insert_seen, hlive]
    exact ⟨rfl, rfl⟩
  · dsimp only
    rw [live_insert_seen, hlive]
    exact ⟨rfl, rfl⟩

/-- **While the gate is closed** memory changes nothing. -/
theorem recordTieredFailure_closed (s : Scripting) {gate : Entry Double}
    (hgate : live now m.data c.gateKey = some gate)
    (hcanonical : Canonical gate.value) (hclosed : epoch < integerOf gate.value)
    (hcounter : ∀ entry ∈ live now m.data c.counterKey, Canonical entry.value) :
    (m.recordTieredFailure now epoch c).1
        = .ok ⟨storedInteger (live now m.data c.counterKey), some (integerOf gate.value), false⟩ ∧
      live now (m.recordTieredFailure now epoch c).2.data = live now m.data := by
  have hlive := @live_liveValue now c.gateKey m
  obtain ⟨hvalue, -⟩ := @liveValue_spec (m.sweepIfDue now) now c.gateKey
  rw [live_sweepIfDue, hgate] at hvalue
  unfold recordTieredFailure
  dsimp only
  generalize (m.sweepIfDue now).liveValue now c.gateKey = read at hvalue hlive ⊢
  obtain ⟨hvalue', hlive'⟩ := @liveValue_spec read.2 now c.counterKey
  rw [hlive] at hvalue' hlive'
  rw [hvalue]
  dsimp only [Option.map_some]
  rw [(hcanonical.spec s).1]
  dsimp only
  rw [if_pos hclosed, hvalue', (elim_parseInteger s hcounter).1]
  exact ⟨rfl, hlive'⟩

/-- **While it is open** memory counts, and what is left of the gate is dropped. -/
theorem recordTieredFailure_open (s : Scripting)
    (hgate : ∀ entry ∈ live now m.data c.gateKey, Canonical entry.value)
    (hopen : ¬ Closed epoch (live now m.data c.gateKey)) :
    ∃ m' : MemoryState, m.recordTieredFailure now epoch c = m'.countFailure now epoch c ∧
      live now m'.data = Function.update (live now m.data) c.gateKey none := by
  have hlive := @live_liveValue now c.gateKey m
  obtain ⟨hvalue, -⟩ := @liveValue_spec (m.sweepIfDue now) now c.gateKey
  rw [live_sweepIfDue] at hvalue
  unfold recordTieredFailure
  dsimp only
  generalize (m.sweepIfDue now).liveValue now c.gateKey = read at hvalue hlive ⊢
  rw [hvalue]
  cases hfound : live now m.data c.gateKey with
  | none =>
    refine ⟨read.2, rfl, ?_⟩
    rw [hlive, ← hfound, Function.update_eq_self]
  | some gate =>
    have hnot : ¬ epoch < integerOf gate.value := fun hlt => hopen ⟨gate, hfound, hlt⟩
    dsimp only [Option.map_some]
    rw [((hgate gate hfound).spec s).1]
    dsimp only
    rw [if_neg hnot]
    refine ⟨_, rfl, ?_⟩
    rw [live_erase, hlive]

end MemoryState

/-! ## In Redis -/

namespace Scripting

variable {s : Scripting} {now : ℤ}

/-- The script reads a number as its double. -/
@[simp] theorem number_decimal (n : ℤ) : s.number (decimal n) = .ok (nearestDouble n) := by
  rw [number, s.toNumber_decimal]
  rfl

/-- An integer of up to 17 digits is passed to a command. -/
theorem integerArgument_intCast {n : ℤ} (h : n.natAbs < 10 ^ 17) : s.integerArgument n = .ok n := by
  have hint : Int64 n := by
    unfold Int64
    omega
  rw [integerArgument, s.numberText_intCast n h, s.readInteger_decimal n hint]
  rfl

/-- A whole number is its own integer. -/
@[simp] theorem toInteger_intCast (n : ℤ) : toInteger n = n := by
  rw [toInteger, Int.floor_intCast, Int.ceil_intCast, ite_self]

/-- **The loop finds the seconds of the last tier that is reached.** -/
theorem tierLoop_eq (count : ℚ) (tiers : List (ℤ × ℤ)) (lockSeconds : ℚ) :
    s.tierLoop count (tiers.flatMap fun tier => [decimal tier.1, decimal tier.2]) lockSeconds
      = .ok ((tiers.map fun tier => (nearestDouble tier.1, nearestDouble tier.2)).foldl
        (fun lockSeconds tier => if tier.1 ≤ count then tier.2 else lockSeconds) lockSeconds) := by
  induction tiers generalizing lockSeconds with
  | nil => rfl
  | cons tier tiers ih =>
    rw [List.flatMap_cons, List.map_cons, List.foldl_cons]
    show (do
      if (← s.number (decimal tier.1)) ≤ count then
        s.tierLoop count (tiers.flatMap _) (← s.number (decimal tier.2))
      else s.tierLoop count (tiers.flatMap _) lockSeconds) = _
    rw [number_decimal, number_decimal]
    show (if nearestDouble tier.1 ≤ count then _ else _) = _
    split
    · exact ih (nearestDouble tier.2)
    · exact ih lockSeconds

variable {db : Database} {epoch : ℤ} {c : Failure}

/-- A duration within the range of Redis, and the double nearest to it, have few digits. -/
theorem exists_seconds {seconds : ℤ} (hnow : Int64 now)
    (h : 0 < seconds → Database.ValidExpiry now seconds) :
    ∃ seconds' : ℤ, nearestDouble seconds = seconds' ∧ (0 < seconds ↔ 0 < seconds') ∧
      (0 < seconds' → seconds'.natAbs < 10 ^ 17) := by
  obtain ⟨seconds', he, hle, hsign⟩ := exists_nearestDouble_intCast seconds
  refine ⟨seconds', he, hsign, fun hpos => ?_⟩
  have hvalid := h (hsign.mpr hpos)
  unfold Int64 at hnow
  unfold Database.ValidExpiry at hvalid
  omega

/-- For how long the script closes the gate. -/
theorem exists_closeSeconds (hnow : Int64 now)
    (h : ∀ tier ∈ c.tiers, 0 < tier.2 → Database.ValidExpiry now tier.2) (count : ℚ) :
    ∃ lockSeconds : ℤ, closeSeconds c.doubles count = lockSeconds ∧
      (0 < lockSeconds → lockSeconds.natAbs < 10 ^ 17) := by
  rcases closeSeconds_mem c.doubles count with he | ⟨double, hmem, he⟩
  · exact ⟨0, by rw [he, Int.cast_zero], by omega⟩
  · obtain ⟨tier, htier, rfl⟩ := List.mem_map.mp hmem
    obtain ⟨seconds, hseconds, -, hsmall⟩ := exists_seconds hnow (h tier htier)
    exact ⟨seconds, he.trans hseconds, hsmall⟩

/-- What is live after the script has counted. -/
def afterScript (s : Scripting) (redis : Live ℤ Bytes) (now count counterTtl lockSeconds gateUntil : ℤ)
    (c : Failure) : Live ℤ Bytes :=
  let counted := Function.update redis (utf8 c.counterKey) (some ⟨decimal count, some (now + 1000 * counterTtl)⟩)
  if 0 < lockSeconds then
    Function.update counted (utf8 c.gateKey)
      (some ⟨s.numberText gateUntil, some (now + 1000 * lockSeconds)⟩)
  else counted

/-- **What the script counts**, or refuses because an expiry is out of range. -/
theorem countFailureScript_spec {counted counterTtl lockSeconds gateUntil : ℤ} (hhit : NotHit now db)
    (hread : Database.Reads s.toServer (live now db (utf8 c.counterKey)) 1 counted)
    (hcount : (counted + 1).natAbs ≤ 2 ^ 53)
    (httl : counterTtl.natAbs < 10 ^ 17)
    (hlock : closeSeconds c.doubles ((counted + 1 : ℤ) : ℚ) = lockSeconds)
    (hsmall : 0 < lockSeconds → lockSeconds.natAbs < 10 ^ 17)
    (huntil : nearestDouble ((epoch + lockSeconds : ℤ) : ℚ) = gateUntil) :
    ∀ result, (s.countFailureScript now (utf8 c.gateKey) (utf8 c.counterKey) epoch counterTtl
        (c.tiers.flatMap fun tier => [decimal tier.1, decimal tier.2])).on db = result →
      if Database.ValidExpiry now counterTtl ∧ (0 < lockSeconds → Database.ValidExpiry now lockSeconds) then
        result.1 = .ok (if 0 < lockSeconds then (counted + 1, gateUntil, 1) else (counted + 1, 0, 0)) ∧
          live now result.2 = s.afterScript (live now db) now (counted + 1) counterTtl lockSeconds gateUntil c
      else ∃ e, result.1 = .error e := by
  rintro result rfl
  have hfirst := Database.incrby_of_reads hhit hread
  rw [countFailureScript, Failing.on_bind_ok (by rw [Failing.on_call]; exact hfirst),
    nearestDouble_intCast hcount, integerArgument_intCast httl]
  dsimp only
  have halive := Database.alive_counted now db (utf8 c.counterKey) (counted + 1)
  have hlater := @Database.notHit_insert _ now (utf8 c.counterKey) _ (Database.notHit_reap hhit) halive
  by_cases hvalid : Database.ValidExpiry now counterTtl
  · obtain ⟨⟨set, hset⟩, hexpiry⟩ := @Database.expire_spec _ now (utf8 c.counterKey) _ hlater hvalid
    rw [Failing.on_bind_ok (by rw [Failing.on_call]; exact Prod.ext hset rfl)]
    -- what `EXPIRE` leaves
    have hcounted : live now (Database.expire ((db.reap now).insert (utf8 c.counterKey)
        (Database.counted (live now db (utf8 c.counterKey)) (counted + 1))) now (utf8 c.counterKey) counterTtl).2
        = Function.update (live now db) (utf8 c.counterKey)
          (some ⟨decimal (counted + 1), some (now + 1000 * counterTtl)⟩) := by
      rw [hexpiry, live_insert halive, withExpiry, Function.update_self]
      dsimp only
      rw [Function.update_idem, Database.live_reap]
      rfl
    have hloop : s.tierLoop ((counted + 1 : ℤ) : ℚ) (c.tiers.flatMap fun tier =>
        [decimal tier.1, decimal tier.2]) 0
        = .ok (lockSeconds : ℚ) := (s.tierLoop_eq _ c.tiers 0).trans (congrArg Except.ok hlock)
    rw [Failing.on_bind_ok (by rw [Failing.on_call, hloop])]
    by_cases hpos : 0 < lockSeconds
    · have hposq : (0 : ℚ) < lockSeconds := by exact_mod_cast hpos
      have hcast : (epoch : ℚ) + lockSeconds = ((epoch + lockSeconds : ℤ) : ℚ) := by push_cast; rfl
      rw [if_pos hposq, hcast, huntil, integerArgument_intCast (hsmall hpos)]
      dsimp only
      by_cases hrange : Database.ValidExpiry now lockSeconds
      · rw [if_pos ⟨hvalid, fun _ => hrange⟩, Failing.on_bind_ok (by
          rw [Failing.on_call, Database.setex, if_neg (not_not.mpr hrange)]), if_pos hpos, Failing.on_pure,
          toInteger_intCast, toInteger_intCast]
        refine ⟨rfl, ?_⟩
        dsimp only
        rw [live_insert (alive_expiryAt fun _ hmem => Option.some.inj hmem ▸ hpos), Database.live_reap, hcounted,
          afterScript, if_pos hpos]
        rfl
      · rw [if_neg fun h => hrange (h.2 hpos), Failing.on_bind_error (by
          rw [Failing.on_call, Database.setex, if_pos hrange])]
        exact ⟨_, rfl⟩
    · have hposq : ¬ (0 : ℚ) < lockSeconds := by exact_mod_cast hpos
      rw [if_neg hposq, if_pos ⟨hvalid, fun h => absurd h hpos⟩, if_neg hpos, Failing.on_pure, toInteger_intCast]
      refine ⟨rfl, ?_⟩
      dsimp only
      rw [hcounted, afterScript, if_neg hpos]
  · rw [if_neg fun h => hvalid h.1, Failing.on_bind_error (by
      rw [Failing.on_call, Database.expire, if_pos hvalid])]
    exact ⟨_, rfl⟩

/-- A value is read when its entry is live. -/
theorem get_eq_some (h : NotHit now db) {key : Bytes} {entry : Entry ℤ} (hentry : live now db key = some entry) :
    db.get now key = some entry.value := by
  rw [Database.get_eq h, hentry]
  rfl

/-- A counter as the script reads it. -/
theorem getD_toNumber {found : Option (Entry ℤ)} (h : ∀ entry ∈ found, Canonical entry.value) :
    (((found.map Entry.value).bind s.toNumber).getD 0) = storedInteger found := by
  cases found with
  | none => exact Int.cast_zero.symm
  | some entry =>
    obtain ⟨-, hsmall, hraw⟩ := (h entry rfl).spec s
    show (s.toNumber entry.value).getD 0 = _
    rw [hraw, s.toNumber_decimal, nearestDouble_intCast hsmall.le]
    rfl

/-- **While the gate is closed** the script changes nothing. -/
theorem recordTieredFailureScript_closed (hhit : NotHit now db) (hepoch : nearestDouble epoch = epoch)
    {gate : Entry ℤ} (hgate : live now db (utf8 c.gateKey) = some gate) (hcanonical : Canonical gate.value)
    (hclosed : epoch < integerOf gate.value)
    (hcounter : ∀ entry ∈ live now db (utf8 c.counterKey), Canonical entry.value) (tiers : List Bytes) :
    (s.recordTieredFailureScript now (utf8 c.gateKey) (utf8 c.counterKey) (decimal epoch)
        (decimal c.counterTtlSeconds) tiers).on db
      = (.ok (storedInteger (live now db (utf8 c.counterKey)), integerOf gate.value, 0), db) := by
  obtain ⟨-, hsmall, hraw⟩ := hcanonical.spec s
  have hnumber : s.number gate.value = .ok (integerOf gate.value : ℚ) := by
    rw [hraw, number_decimal, nearestDouble_intCast hsmall.le, ← hraw]
  have hlt : (epoch : ℚ) < integerOf gate.value := by exact_mod_cast hclosed
  rw [recordTieredFailureScript, Failing.on_bind_ok (by rw [Failing.on_call, number_decimal, hepoch]),
    Failing.on_bind_ok (by rw [Failing.on_call, number_decimal]),
    Failing.on_bind_ok (by rw [Failing.on_call, get_eq_some hhit hgate])]
  dsimp only
  rw [Failing.on_bind_ok (by rw [Failing.on_call, hnumber]), if_pos hlt,
    Failing.on_bind_ok (by rw [Failing.on_call, Database.get_eq hhit]), Failing.on_pure, getD_toNumber hcounter,
    toInteger_intCast, toInteger_intCast]

/-- Erasing a key hits no instant. -/
theorem notHit_erase (h : NotHit now db) (key : Bytes) : NotHit now (db.erase key) := by
  intro other entry hfound
  by_cases hkey : other = key
  · rw [hkey, AList.lookup_erase] at hfound
    cases hfound
  · rw [AList.lookup_erase_ne hkey] at hfound
    exact h other entry hfound

/-- **While it is open** the script counts, and what is left of the gate is deleted. -/
theorem recordTieredFailureScript_open (hhit : NotHit now db) (hepoch : nearestDouble epoch = epoch)
    (hgate : ∀ entry ∈ live now db (utf8 c.gateKey), Canonical entry.value)
    (hopen : ¬ Closed epoch (live now db (utf8 c.gateKey))) (tiers : List Bytes) :
    ∃ db' : Database, NotHit now db' ∧
      live now db' = Function.update (live now db) (utf8 c.gateKey) none ∧
      (s.recordTieredFailureScript now (utf8 c.gateKey) (utf8 c.counterKey) (decimal epoch)
          (decimal c.counterTtlSeconds) tiers).on db
        = (s.countFailureScript now (utf8 c.gateKey) (utf8 c.counterKey) epoch
          (nearestDouble c.counterTtlSeconds) tiers).on db' := by
  rw [recordTieredFailureScript, Failing.on_bind_ok (by rw [Failing.on_call, number_decimal, hepoch]),
    Failing.on_bind_ok (by rw [Failing.on_call, number_decimal]),
    Failing.on_bind_ok (by rw [Failing.on_call, Database.get_eq hhit])]
  cases hfound : live now db (utf8 c.gateKey) with
  | none =>
    refine ⟨db, hhit, ?_, rfl⟩
    rw [← hfound, Function.update_eq_self]
  | some gate =>
    obtain ⟨-, hsmall, hraw⟩ := (hgate gate hfound).spec s
    have hnumber : s.number gate.value = .ok (integerOf gate.value : ℚ) := by
      rw [hraw, number_decimal, nearestDouble_intCast hsmall.le, ← hraw]
    have hnot : ¬ (epoch : ℚ) < integerOf gate.value := by
      exact_mod_cast fun hlt => hopen ⟨gate, hfound, hlt⟩
    refine ⟨(db.reap now).erase (utf8 c.gateKey), notHit_erase (Database.notHit_reap hhit) _, ?_, ?_⟩
    · rw [live_erase, Database.live_reap]
    · dsimp only [Option.map_some]
      rw [Failing.on_bind_ok (by rw [Failing.on_call, hnumber]), if_neg hnot]
      rfl

end Scripting

/-! ## One call -/

/-- **The backends agree on a call**: what they return, what they leave, and that a closed gate stays as it
is. -/
structure TieredAgree (s : Scripting) (m : MemoryState) (db : Database) (now epoch : ℤ)
    (c : Failure) : Prop where
  reply : (m.recordTieredFailure (monotonic now) epoch c).1 = (RedisState.recordTieredFailure s db now epoch c).1
  stored : Same (live (monotonic now) (m.recordTieredFailure (monotonic now) epoch c).2.data)
    (live now (RedisState.recordTieredFailure s db now epoch c).2)
  closed : Closed epoch (live (monotonic now) m.data c.gateKey) →
    live (monotonic now) (m.recordTieredFailure (monotonic now) epoch c).2.data = live (monotonic now) m.data ∧
      live now (RedisState.recordTieredFailure s db now epoch c).2 = live now db

/-- **The condition on a call** and on what is stored before it: a gate is not closed until the epoch, and
where it is open rounding moves nothing that matters for the next count. -/
def Tame (now epoch : ℤ) (memory : Live Double Key) (c : Failure) : Prop :=
  (∀ gate ∈ memory c.gateKey, epoch < integerOf gate.value → integerOf gate.value ≠ 0) ∧
    (¬ Closed epoch (memory c.gateKey) → Exact now epoch (storedInteger (memory c.counterKey) + 1) c)

section Step

variable {s : Scripting} {m : MemoryState} {db : Database} {redis : Live ℤ Bytes} {now epoch : ℤ} {c : Failure}

/-- Values that both backends read alike. -/
theorem Same.canonical {memory : Live Double Key} (h : Same memory redis) {key : Key}
    (hcanonical : ∀ entry ∈ redis (utf8 key), Canonical entry.value) :
    ∀ entry ∈ memory key, Canonical entry.value := by
  intro entry hentry
  refine hcanonical entry.inMillis ?_
  rw [← h.entries, Option.mem_def.mp hentry]
  rfl

/-- Both backends store the same number. -/
theorem Same.storedInteger_eq {memory : Live Double Key} (h : Same memory redis) (key : Key) :
    storedInteger (redis (utf8 key)) = storedInteger (memory key) := by
  rw [← h.entries]
  cases memory key with
  | none => rfl
  | some entry => rfl

/-- The gate is closed in both backends or in none. -/
theorem Same.closed_iff {memory : Live Double Key} (h : Same memory redis) (key : Key) :
    Closed epoch (redis (utf8 key)) ↔ Closed epoch (memory key) := by
  rw [← h.entries]
  constructor
  · rintro ⟨_, hentry, hlt⟩
    obtain ⟨entry, hfound, rfl⟩ := Option.map_eq_some_iff.mp hentry
    exact ⟨entry, hfound, hlt⟩
  · rintro ⟨entry, hfound, hlt⟩
    exact ⟨entry.inMillis, by rw [Option.mem_def.mp hfound]; rfl, hlt⟩

/-- **A gate that is closed**: the backends agree unless it is closed until the epoch. -/
theorem tieredAgree_closed_iff (husable : Usable now epoch (live now db) c)
    (hsame : Same (live (monotonic now) m.data) (live now db)) (hhit : NotHit now db) {gate : Entry Double}
    (hgate : live (monotonic now) m.data c.gateKey = some gate) (hclosed : epoch < integerOf gate.value) :
    TieredAgree s m db now epoch c ↔ Tame now epoch (live (monotonic now) m.data) c := by
  have hcounter' := husable.stored c.counterKey List.mem_cons_self
  have hcounter := hsame.canonical hcounter'
  have hcanonical := hsame.canonical
      (husable.stored c.gateKey (List.mem_cons_of_mem _ List.mem_cons_self)) gate hgate
  obtain ⟨hreply, hlive⟩ := MemoryState.recordTieredFailure_closed s hgate hcanonical hclosed hcounter
  have hgate' : live now db (utf8 c.gateKey) = some gate.inMillis := by
    rw [← hsame.entries, hgate]
    rfl
  have hscript := Scripting.recordTieredFailureScript_closed
      (s := s) hhit husable.clocks.2.2 hgate' hcanonical hclosed
    hcounter' (c.tiers.flatMap fun tier => [decimal tier.1, decimal tier.2])
  have hredis : RedisState.recordTieredFailure s db now epoch c
      = (.ok ⟨storedInteger (live (monotonic now) m.data c.counterKey),
        if integerOf gate.value = 0 then none else some (integerOf gate.value), false⟩, db) := by
    rw [RedisState.recordTieredFailure, hscript, hsame.storedInteger_eq]
    rfl
  constructor
  · intro hagree
    refine ⟨fun gate' hgate' _ hzero => ?_, fun hopen => absurd ⟨gate, hgate, hclosed⟩ hopen⟩
    obtain rfl := Option.some.inj (hgate.symm.trans hgate')
    have hsaid := hagree.reply
    -- the one backend reports the epoch as an instant, the other as none
    rw [hreply, hredis, if_pos hzero] at hsaid
    cases hsaid
  · rintro ⟨hzero, -⟩
    have hne := hzero gate hgate hclosed
    constructor
    · rw [hreply, hredis, if_neg hne]
    · rw [hlive, hredis]
      exact hsame
    · rw [hlive, hredis]
      exact fun _ => ⟨rfl, rfl⟩

/-- The counter before a count, as both read it. -/
theorem counted_before {found : Option (Entry ℤ)} (h : ∀ entry ∈ found, Canonical entry.value) :
    Database.Reads s.toServer found 1 (storedInteger found) ∧ (storedInteger found + 1).natAbs ≤ 2 ^ 53 := by
  have hsmall := (elim_parseInteger s h).2
  have hle : (storedInteger found + 1).natAbs ≤ 2 ^ 53 := by omega
  refine ⟨⟨?_, by decide, int64_of_natAbs_lt hle⟩, hle⟩
  cases found with
  | none => rfl
  | some entry =>
    obtain ⟨-, hsmall, hraw⟩ := (h entry rfl).spec s
    show s.readInteger entry.value = some (integerOf entry.value)
    rw [hraw, s.readInteger_decimal _ (int64_of_natAbs_lt hsmall.le), ← hraw]

/-- Until when a gate is closed is a number of few digits. -/
theorem gateUntil_small (husable : Usable now epoch redis c) (count : ℤ)
    (hpos : 0 < closeSeconds c.tiers count) :
    (epoch + closeSeconds c.tiers count).natAbs < 10 ^ 17 := by
  rcases closeSeconds_mem c.tiers count with hzero | ⟨tier, hmem, he⟩
  · omega
  · have hvalid := husable.durations tier hmem (he ▸ hpos)
    obtain ⟨hnow, hepoch, -⟩ := husable.clocks
    unfold Database.ValidExpiry at hvalid
    unfold Int64 at hnow hepoch
    omega

/-- What rounding leaves are integers. -/
theorem exact_iff {count ttl lockSeconds gateUntil : ℤ} (httl : nearestDouble c.counterTtlSeconds = ttl)
    (hlock : closeSeconds c.doubles (count : ℚ) = lockSeconds)
    (huntil : nearestDouble ((epoch + lockSeconds : ℤ) : ℚ) = gateUntil) :
    Exact now epoch count c ↔ Unmoved now epoch count c ttl lockSeconds gateUntil := by
  have hsum : (epoch : ℚ) + lockSeconds = ((epoch + lockSeconds : ℤ) : ℚ) := by push_cast; rfl
  rw [Exact, httl, hlock, hsum, huntil, Scripting.toInteger_intCast, Scripting.toInteger_intCast,
    Scripting.toInteger_intCast]

/-- What the script returns. -/
def scriptOutcome (count lockSeconds gateUntil : ℤ) : TieredFailureOutcome :=
  if 0 < lockSeconds then ⟨count, if gateUntil = 0 then none else some gateUntil, true⟩ else ⟨count, none, false⟩

/-- **The same outcome and the same expiries**: rounding has moved nothing, where Redis takes the expiries. -/
theorem outcome_eq_iff {memory : Live Double Key} (hsame : Same memory redis)
    (hkeys : c.counterKey ≠ c.gateKey) {count ttl lockSeconds gateUntil : ℤ}
    (hsmall : 0 < closeSeconds c.tiers count → (epoch + closeSeconds c.tiers count).natAbs < 10 ^ 17)
    (hrange : now + 1000 * ttl < 2 ^ 63) (hrangeLock : 0 < lockSeconds → now + 1000 * lockSeconds < 2 ^ 63) :
    MemoryState.outcome epoch count c = scriptOutcome count lockSeconds gateUntil ∧
        Same (MemoryState.afterCount memory (monotonic now) epoch count c)
          (s.afterScript redis now count ttl lockSeconds gateUntil c)
      ↔ Unmoved now epoch count c ttl lockSeconds gateUntil := by
  have hbytes : utf8 c.counterKey ≠ utf8 c.gateKey := utf8_injective.ne hkeys
  unfold MemoryState.outcome scriptOutcome MemoryState.afterCount Scripting.afterScript Unmoved Kept
  dsimp only
  rw [and_iff_left hrange, expiresAt_iff (decimal count),
    expiresAt_iff (decimal (epoch + closeSeconds c.tiers count))]
  by_cases hpos : 0 < closeSeconds c.tiers count
  · by_cases hpos' : 0 < lockSeconds
    · rw [if_pos hpos, if_pos hpos', if_pos hpos, if_pos hpos', and_iff_left (hrangeLock hpos'),
        or_iff_right fun h => absurd hpos (not_lt.mpr h.1), and_iff_right hpos, and_iff_right hpos']
      constructor
      · rintro ⟨hreply, hstored⟩
        -- the expiries of the counter and of the gate, and what is returned
        split at hreply
        · cases hreply
        · rename_i hne
          simp only [TieredFailureOutcome.mk.injEq, true_and, and_true, Option.some.injEq] at hreply
          have hcounter := hstored.entries c.counterKey
          have hgate := hstored.entries c.gateKey
          rw [Function.update_of_ne hkeys, Function.update_of_ne hbytes, Function.update_self,
            Function.update_self] at hcounter
          rw [Function.update_self, Function.update_self, ← hreply,
            s.numberText_intCast _ (hsmall hpos)] at hgate
          exact ⟨hcounter, hreply.symm, hne, hgate⟩
      · rintro ⟨hcounter, rfl, hne, hgate⟩
        rw [if_neg hne, s.numberText_intCast _ (hsmall hpos)]
        exact ⟨rfl, (hsame.update_iff.mpr hcounter).update_iff.mpr hgate⟩
    · rw [if_pos hpos, if_neg hpos']
      refine iff_of_false (fun h => ?_) ?_
      · exact Bool.noConfusion (congrArg TieredFailureOutcome.newlyLocked h.1)
      · rintro ⟨-, ⟨hnot, -⟩ | ⟨-, h, -⟩⟩
        · exact absurd hpos (not_lt.mpr hnot)
        · exact hpos' h
  · by_cases hpos' : 0 < lockSeconds
    · rw [if_neg hpos, if_pos hpos']
      refine iff_of_false (fun h => ?_) ?_
      · exact Bool.noConfusion (congrArg TieredFailureOutcome.newlyLocked h.1)
      · rintro ⟨-, ⟨-, hnot⟩ | ⟨h, -⟩⟩
        · exact absurd hpos' (not_lt.mpr hnot)
        · exact hpos h
    · rw [if_neg hpos, if_neg hpos', if_neg hpos, if_neg hpos', and_iff_right rfl, hsame.update_iff]
      exact (and_iff_left (Or.inl ⟨not_lt.mp hpos, not_lt.mp hpos'⟩)).symm

/-- **A gate that is open**: the backends agree exactly when rounding moves nothing that matters. -/
theorem tieredAgree_open_iff (husable : Usable now epoch (live now db) c)
    (hsame : Same (live (monotonic now) m.data) (live now db)) (hhit : NotHit now db)
    (hopen : ¬ Closed epoch (live (monotonic now) m.data c.gateKey)) :
    TieredAgree s m db now epoch c ↔ Tame now epoch (live (monotonic now) m.data) c := by
  have hcounter := husable.stored c.counterKey List.mem_cons_self
  have hcanonical := husable.stored c.gateKey (List.mem_cons_of_mem _ List.mem_cons_self)
  have hbytes : utf8 c.counterKey ≠ utf8 c.gateKey := utf8_injective.ne husable.keys
  -- what the counter says in both stores, before the failure
  obtain ⟨hreads, hle⟩ := counted_before (s := s) hcounter
  obtain ⟨counted, hcounted⟩ : ∃ counted, storedInteger (live (monotonic now) m.data c.counterKey) = counted :=
    ⟨_, rfl⟩
  rw [hsame.storedInteger_eq, hcounted] at hreads hle
  obtain ⟨ttl, httl, hpos, httlSmall⟩ := Scripting.exists_seconds husable.clocks.1 fun _ => husable.ttl
  obtain ⟨lockSeconds, hlock, hlockSmall⟩ :=
    Scripting.exists_closeSeconds husable.clocks.1 husable.durations ((counted + 1 : ℤ) : ℚ)
  obtain ⟨gateUntil, huntil, -⟩ := exists_nearestDouble_intCast (epoch + lockSeconds)
  -- memory counts
  obtain ⟨m', hm', hlivem'⟩ := MemoryState.recordTieredFailure_open s
    (hsame.canonical hcanonical) hopen
  have hreadm : ((live (monotonic now) m'.data c.counterKey).map Entry.value).elim (.ok 0) parseInteger
      = .ok counted := by
    rw [hlivem', Function.update_of_ne husable.keys, ← hcounted]
    exact (elim_parseInteger s (hsame.canonical hcounter)).1
  obtain ⟨hreplym, hafterm⟩ := @MemoryState.countFailure_spec m' (monotonic now) epoch c _ hreadm
    (int64_of_natAbs_lt hle) fun hpos => not_long_of_int64 <| by
      have hsmall := gateUntil_small husable (counted + 1) hpos
      unfold Int64
      omega
  -- the script counts too
  obtain ⟨db', hhit', hlivedb', hdb'⟩ :=
    Scripting.recordTieredFailureScript_open (s := s) hhit husable.clocks.2.2
    hcanonical ((hsame.closed_iff c.gateKey).not.mpr hopen) (c.tiers.flatMap fun tier =>
      [decimal tier.1, decimal tier.2])
  have hreads' : Database.Reads s.toServer (live now db' (utf8 c.counterKey)) 1 counted := by
    rw [hlivedb', Function.update_of_ne hbytes]
    exact hreads
  have hscript := Scripting.countFailureScript_spec hhit' hreads' hle (httlSmall (hpos.mp husable.ttl.1)) hlock
    hlockSmall huntil _ rfl
  rw [← httl, ← hdb', hlivedb'] at hscript
  -- no gate is closed, so the condition is about the new expiries alone
  have htame : Tame now epoch (live (monotonic now) m.data) c ↔ Exact now epoch (counted + 1) c := by
    rw [Tame, hcounted, forall_prop_of_true hopen]
    exact and_iff_right fun gate hgate hlt => absurd ⟨gate, hgate, hlt⟩ hopen
  have hsame' := hsame.erase c.gateKey
  rw [htame, exact_iff httl hlock huntil]
  split at hscript
  · -- both count
    have hreply : (RedisState.recordTieredFailure s db now epoch c).1
        = .ok (scriptOutcome (counted + 1) lockSeconds gateUntil) := by
      rw [RedisState.recordTieredFailure]
      dsimp only
      rw [hscript.1]
      unfold scriptOutcome
      split
      · rfl
      · rfl
    rename_i hvalid
    rw [← outcome_eq_iff (s := s) hsame' husable.keys (gateUntil_small husable _) hvalid.1.2 fun h =>
      (hvalid.2 h).2]
    constructor
    · intro hagree
      have hsaid := hagree.reply
      have hstored := hagree.stored
      rw [hm', hreplym, hreply] at hsaid
      rw [hm', hafterm, hlivem', RedisState.recordTieredFailure] at hstored
      refine ⟨Except.ok.inj hsaid, ?_⟩
      rw [← hscript.2]
      exact hstored
    · rintro ⟨hsaid, hstored⟩
      refine ⟨?_, ?_, fun hclosed => absurd hclosed hopen⟩
      · rw [hm', hreplym, hreply, hsaid]
      · rw [hm', hafterm, hlivem', RedisState.recordTieredFailure]
        dsimp only
        rw [hscript.2]
        exact hstored
  · -- the script fails at an expiry that rounding has moved out of range
    rename_i hinvalid
    obtain ⟨e, hfailed⟩ := hscript
    refine iff_of_false (fun hagree => ?_) ?_
    · have hsaid := hagree.reply
      rw [hm', hreplym, RedisState.recordTieredFailure] at hsaid
      dsimp only at hsaid
      rw [hfailed] at hsaid
      cases hsaid
    · rintro ⟨hkept, hgate⟩
      refine hinvalid ⟨⟨hpos.mp husable.ttl.1, hkept.2⟩, fun hlockpos => ?_⟩
      rcases hgate with ⟨-, hnot⟩ | ⟨-, -, -, -, hkeptGate⟩
      · exact absurd hlockpos (not_lt.mpr hnot)
      · exact ⟨hlockpos, hkeptGate.2⟩

/-- **One call**: the backends agree exactly when it meets the condition. -/
theorem tieredAgree_iff_tame (husable : Usable now epoch (live now db) c)
    (hsame : Same (live (monotonic now) m.data) (live now db)) (hhit : NotHit now db) :
    TieredAgree s m db now epoch c ↔ Tame now epoch (live (monotonic now) m.data) c := by
  by_cases hclosed : Closed epoch (live (monotonic now) m.data c.gateKey)
  · obtain ⟨gate, hgate, hlt⟩ := hclosed
    exact tieredAgree_closed_iff husable hsame hhit hgate hlt
  · exact tieredAgree_open_iff husable hsame hhit hclosed

end Step

/-! ## Runs -/

/-- A call, when it is made, and what `int(time.time())` is then. -/
structure FailureAt where
  now : ℤ
  epoch : ℤ
  failure : Failure

/-- Both backends after some calls. -/
def afterFailures (s : Scripting) (before : MemoryState × Database) (calls : List FailureAt) :
    MemoryState × Database :=
  calls.foldl (fun (m, db) c => ((m.recordTieredFailure (monotonic c.now) c.epoch c.failure).2,
    (RedisState.recordTieredFailure s db c.now c.epoch c.failure).2)) before

/-- **A call of a run**: it comes after those before it, both backends can make it, and no key is read at the
instant at which it expires. -/
structure Fair (s : Scripting) (before : MemoryState × Database) (start : ℤ) (past : List FailureAt)
    (c : FailureAt) : Prop where
  order : start ≤ c.now ∧ ∀ c' ∈ past, c'.now ≤ c.now
  usable : Usable c.now c.epoch (live c.now (afterFailures s before past).2) c.failure
  notHit : NotHit c.now (afterFailures s before past).2
  notHitMemory : NotHit (monotonic c.now) (afterFailures s before past).1.data

section Run

variable {s : Scripting} {before : MemoryState × Database} {start : ℤ} {calls : List FailureAt}

/-- One failure more. -/
theorem afterFailures_concat (c : FailureAt) :
    afterFailures s before (calls ++ [c])
      = (((afterFailures s before calls).1.recordTieredFailure (monotonic c.now) c.epoch c.failure).2,
        (RedisState.recordTieredFailure s (afterFailures s before calls).2 c.now c.epoch c.failure).2) := by
  rw [afterFailures, List.foldl_append]
  rfl

/-- **Backends that have agreed so far store the same.** -/
theorem same_afterFailures {c : FailureAt}
    (hsame : Same (live (monotonic start) before.1.data) (live start before.2))
    (hfair : Fair s before start calls c)
    (hagree : EachAfter (fun past c =>
    TieredAgree s (afterFailures s before past).1 (afterFailures s before past).2
      c.now c.epoch c.failure) calls) :
    Same (live (monotonic c.now) (afterFailures s before calls).1.data)
      (live c.now (afterFailures s before calls).2) := by
  obtain ⟨horder, -, hhit, hmemory⟩ := hfair
  cases calls using List.reverseRecOn with
  | nil => exact hsame.later horder.1 hhit hmemory
  | append_singleton calls last =>
    obtain ⟨-, hlast⟩ := eachAfter_concat.mp hagree
    rw [afterFailures_concat] at hhit hmemory ⊢
    exact hlast.stored.later (horder.2 last (List.mem_append_right _ List.mem_cons_self)) hhit hmemory

end Run

/-! ## A server -/

/-- The codes of digits. -/
theorem digit_bounds {d : Char} (h : d.isDigit) : 48 ≤ d.toNat ∧ d.toNat ≤ 57 := by
  rw [Char.isDigit, Bool.and_eq_true, decide_eq_true_iff, decide_eq_true_iff] at h
  exact ⟨h.1, h.2⟩

/-- Digits are one byte each. -/
theorem utf8_digits {ds : List Char} (h : ∀ d ∈ ds, d.isDigit) :
    utf8 ds = ds.map fun d => UInt8.ofNat d.toNat := by
  induction ds with
  | nil => rfl
  | cons d ds ih =>
    have hd := digit_bounds (h d List.mem_cons_self)
    rcases utf8EncodeChar_cases d with ⟨-, hone⟩ | ⟨hhigh, -⟩
    · show String.utf8EncodeChar d ++ utf8 ds = _
      rw [hone, ih fun e he => h e (List.mem_cons_of_mem _ he)]
      rfl
    · omega

/-- Digits spell the number that they are the digits of. -/
theorem naturalOf_digits {ds : List Char} (h : ∀ d ∈ ds, d.isDigit) : naturalOf (utf8 ds) = natOf ds := by
  have hfold (n : ℕ) : (ds.map fun d => UInt8.ofNat d.toNat).foldl (fun n digit => 10 * n + (digit.toNat - 48)) n
      = Nat.ofDigitChars 10 ds n := by
    induction ds generalizing n with
    | nil => rfl
    | cons d ds ih =>
      have hd := digit_bounds (h d List.mem_cons_self)
      have hbyte : (UInt8.ofNat d.toNat).toNat = d.toNat := Nat.mod_eq_of_lt (by omega)
      rw [List.map_cons, List.foldl_cons, hbyte, ih fun e he => h e (List.mem_cons_of_mem _ he)]
      rfl
  rw [naturalOf, utf8_digits h]
  exact hfold 0

/-- A number is written without leading zeros. -/
theorem isDecimal_toDigits (n : ℕ) : isDecimal (utf8 (Nat.toDigits 10 n)) = true := by
  have hdigits := digits_toDigits n
  have hleading := leading_toDigits n
  obtain ⟨d, ds, hds⟩ := List.exists_cons_of_ne_nil (@Nat.toDigits_ne_nil n 10)
  rw [utf8_digits hdigits]
  rw [hds] at hdigits hleading ⊢
  have hbounds {e : Char} (he : e ∈ d :: ds) : 48 ≤ UInt8.ofNat e.toNat ∧ UInt8.ofNat e.toNat ≤ 57 := by
    have := digit_bounds (hdigits e he)
    rw [UInt8.le_iff_toNat_le, UInt8.le_iff_toNat_le, UInt8.toNat_ofNat']
    simp
    omega
  cases ds with
  | nil => exact decide_eq_true (hbounds List.mem_cons_self)
  | cons e es =>
    -- the first of several digits is no zero
    have hfirst : 49 ≤ UInt8.ofNat d.toNat := by
      have hd := digit_bounds (hdigits d List.mem_cons_self)
      have hzero : d.toNat ≠ 48 := by
        intro heq
        rcases hleading with hsingle | hhead
        · cases hsingle
        · exact hhead (congrArg some (Char.toNat_inj.mp heq))
      rw [UInt8.le_iff_toNat_le, UInt8.toNat_ofNat']
      simp
      omega
    rw [List.map_cons, List.map_cons, isDecimal]
    · rw [Bool.and_eq_true, decide_eq_true_iff]
      refine ⟨⟨hfirst, (hbounds List.mem_cons_self).2⟩, ?_⟩
      rw [← List.map_cons (f := fun e : Char => UInt8.ofNat e.toNat), List.all_map, List.all_eq_true]
      exact fun e' he' => decide_eq_true (hbounds (List.mem_cons_of_mem _ he'))
    · exact fun heq => List.cons_ne_nil _ _ heq

/-- The sign of a number and its digits. -/
theorem digitsOf_decimal (n : ℤ) : digitsOf (decimal n) = (decide (n < 0), utf8 (Nat.toDigits 10 n.natAbs)) := by
  cases n with
  | ofNat n =>
    have hdigits := digits_toDigits n
    have htext : (toString (Int.ofNat n)).toList = Nat.toDigits 10 n := by
      simp [Int.repr, toString]
    rw [decimal, htext]
    show digitsOf (utf8 (Nat.toDigits 10 n)) = (decide ((n : ℤ) < 0), utf8 (Nat.toDigits 10 n))
    obtain ⟨d, ds, hds⟩ := List.exists_cons_of_ne_nil (@Nat.toDigits_ne_nil n 10)
    rw [utf8_digits hdigits, decide_eq_false (by omega), hds, List.map_cons]
    have hd := digit_bounds (hdigits d (hds ▸ List.mem_cons_self))
    rw [digitsOf]
    intro _ heq
    have hbyte := congrArg UInt8.toNat (List.head_eq_of_cons_eq heq)
    rw [UInt8.toNat_ofNat'] at hbyte
    simp at hbyte
    omega
  | negSucc n =>
    have htext : (toString (Int.negSucc n)).toList = '-' :: Nat.toDigits 10 (n + 1) := by
      simp [Int.repr, toString]
    rw [decimal, htext, decide_eq_true (Int.negSucc_lt_zero n)]
    rfl

/-- A number that is written is read. -/
theorem decimal_spec (n : ℤ) : isInteger (decimal n) = true ∧ integerOf (decimal n) = n
    ∧ decimal n ≠ [45, 48] := by
  have hvalue : naturalOf (utf8 (Nat.toDigits 10 n.natAbs)) = n.natAbs := by
    rw [naturalOf_digits (digits_toDigits _)]
    exact Nat.ofDigitChars_ten_toDigits
  have hinteger : integerOf (decimal n) = n := by
    rw [integerOf, digitsOf_decimal, hvalue]
    simp only [decide_eq_true_iff]
    split <;> omega
  refine ⟨?_, hinteger, fun heq => ?_⟩
  · rw [isInteger, digitsOf_decimal]
    exact isDecimal_toDigits _
  · have hsign := congrArg Prod.fst (digitsOf_decimal n)
    rw [heq] at hinteger hsign
    have hneg : n < 0 := decide_eq_true_iff.mp hsign.symm
    have hzero : n = 0 := hinteger.symm
    omega

/-- The server with plain patterns, and numbers without fractions. -/
def plainScripting : Scripting where
  toServer := plainServer
  toNumber raw := if isInteger raw = true then some (nearestDouble (integerOf raw)) else none
  numberText q := decimal (toInteger q)
  toNumber_decimal n := by
    obtain ⟨hinteger, hvalue, -⟩ := decimal_spec n
    rw [hinteger, hvalue]
    rfl
  numberText_intCast n _ := by
    rw [Scripting.toInteger_intCast]
  readInteger_decimal n h := by
    obtain ⟨hinteger, hvalue, hzero⟩ := decimal_spec n
    show (if isInteger (decimal n) = true ∧ decimal n ≠ [45, 48]
      ∧ Int64 (integerOf (decimal n)) then _ else _) = _
    rw [hvalue, if_pos ⟨hinteger, hzero, h⟩]

/-- A failure of one account, with a single tier. -/
def failureOf (tier : ℤ × ℤ) : Failure := ⟨['n'], ['g'], [tier], 600⟩

/-- Four failures are counted so far. -/
def countedFour : MemoryState × Database :=
  (⟨(∅ : FiniteMap Key (Entry Double)).insert ['n'] ⟨decimal 4, some (monotonic 5000)⟩,
      (MemoryState.new (monotonic 0)).nextSweep⟩,
    (∅ : Database).insert (utf8 ['n']) ⟨decimal 4, some 5000⟩)

/-- Both backends have counted four. -/
theorem same_countedFour : Same (live (monotonic 0) countedFour.1.data) (live 0 countedFour.2) := by
  have hempty : Same (live (monotonic 0) (∅ : FiniteMap Key (Entry Double))) (live 0 (∅ : Database)) :=
    ⟨fun _ => rfl, fun _ h => absurd rfl h⟩
  show Same (live (monotonic 0) ((∅ : FiniteMap Key (Entry Double)).insert _ _))
    (live 0 ((∅ : Database).insert _ _))
  rw [live_insert (by decide +kernel), live_insert (by decide), hempty.update_iff]
  decide +kernel

end Jasil.State
