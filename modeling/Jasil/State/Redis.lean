import Jasil.State.Memory
import Mathlib.Data.Int.Order.Basic

/-! # State in Redis
The backend that is shared across workers: each call is a command, or a few of them, of a Redis server. What the
server's documentation leaves open is a parameter. The server's clock counts milliseconds.

* **`Server`**: what the server reads as an integer, how it matches and scans.
* **`RedisState.call`**: what a call returns or raises, and the database after it.
* **`globMatch_escape`**: an escaped prefix followed by a star matches what begins with the prefix. -/

namespace Jasil.State

/-- The range of a signed integer of 64 bits. -/
def Int64 (n : ℤ) : Prop := -2 ^ 63 ≤ n ∧ n < 2 ^ 63

instance (n : ℤ) : Decidable (Int64 n) := inferInstanceAs (Decidable (_ ∧ _))

/-- The bytes that have a meaning in a pattern. -/
def globBytes : List UInt8 := [92, 42, 63, 91, 93]

/-- **A Redis server**, as far as its documentation and that of its client go. -/
structure Server where
  /-- What a stored value stands for as an integer. -/
  readInteger : Bytes → Option ℤ
  /-- The key matches the pattern. -/
  globMatch : Bytes → Bytes → Bool
  /-- What a whole `SCAN` lists: every key that matches, in any order and perhaps more than once. -/
  scanIter : FiniteMap Bytes (Entry ℤ) → Bytes → List Bytes
  /-- What the client puts before the text of an error within a pipeline. -/
  annotation : ℕ → Bytes → String
  /-- An optional minus sign and no leading zeros, with nothing around it, and within 64 bits. -/
  readInteger_spec : ∀ raw n, readInteger raw = some n → isInteger raw = true ∧ integerOf raw = n ∧ Int64 n
  globMatch_star : ∀ key, globMatch [42] key = true
  /-- A backslash escapes the byte after it. -/
  globMatch_escaped : ∀ b pattern key, globMatch (92 :: b :: pattern) key
    = key.head?.elim false fun b' => decide (b = b') && globMatch pattern key.tail
  globMatch_literal : ∀ b pattern key, b ∉ globBytes → globMatch (b :: pattern) key
    = key.head?.elim false fun b' => decide (b = b') && globMatch pattern key.tail
  mem_scanIter : ∀ data pattern key, key ∈ scanIter data pattern ↔ key ∈ data ∧ globMatch pattern key = true

/-- `ResponseError`. -/
structure ResponseError where
  message : String

/-! ## Commands -/

/-- The keys of a Redis database, with their values and their instants of expiry. -/
abbrev Database := FiniteMap Bytes (Entry ℤ)

/-- The instant that is so many seconds later. -/
def expiryAt (now : ℤ) (ttlSeconds : Option ℤ) : Option ℤ := ttlSeconds.map (now + 1000 * ·)

namespace Database

variable (server : Server) (db : Database) (now : ℤ)

/-- A key whose time is over is deleted. -/
def reap : Database := db.retain fun _ entry => entry.expiry.all (now ≤ ·)

/-- `GET`. -/
def get (key : Bytes) : Option Bytes := ((db.reap now).lookup key).map Entry.value

/-- An expiry that the server takes: positive, and a number of 64 bits as the instant it stands for. -/
def ValidExpiry (seconds : ℤ) : Prop := 0 < seconds ∧ now + 1000 * seconds < 2 ^ 63

instance (seconds : ℤ) : Decidable (ValidExpiry now seconds) := inferInstanceAs (Decidable (_ ∧ _))

/-- `SET`, with `EX` and `NX`. -/
def set (key value : Bytes) (ex : Option ℤ) (nx : Bool) : Except ResponseError Bool × Database :=
  if ∃ seconds ∈ ex, ¬ ValidExpiry now seconds then
    (.error ⟨"invalid expire time in 'set' command"⟩, db.reap now)
  else if nx = true ∧ key ∈ db.reap now then (.ok false, db.reap now)
  else (.ok true, (db.reap now).insert key ⟨value, expiryAt now ex⟩)

/-- `DEL`. -/
def del (keys : List Bytes) : ℕ × Database := FiniteMap.eraseAll keys (db.reap now)

/-- `GETDEL`. -/
def getdel (key : Bytes) : Option Bytes × Database := (db.get now key, (db.reap now).erase key)

/-- `INCRBY`. -/
def incrby (key : Bytes) (amount : ℤ) : Except ResponseError ℤ × Database :=
  let db := db.reap now
  if ¬ Int64 amount then (.error ⟨"value is not an integer or out of range"⟩, db)
  else
    match (db.lookup key).elim (some 0) fun entry => server.readInteger entry.value with
    | none => (.error ⟨"value is not an integer or out of range"⟩, db)
    | some current =>
      if ¬ Int64 (current + amount) then (.error ⟨"increment or decrement would overflow"⟩, db)
      else (.ok (current + amount), db.insert key ⟨decimal (current + amount),
        (db.lookup key).bind Entry.expiry⟩)

/-- `EXPIRE`. -/
def expire (key : Bytes) (seconds : ℤ) : Except ResponseError Bool × Database :=
  let db := db.reap now
  if ¬ ValidExpiry now seconds then (.error ⟨"invalid expire time in 'expire' command"⟩, db)
  else
    match db.lookup key with
    | none => (.ok false, db)
    | some entry => (.ok true, db.insert key { entry with expiry := expiryAt now (some seconds) })

/-- `INCRBY` and `EXPIRE` in one transaction, where the error of one does not keep the other from being executed;
the client raises the first. -/
def incrbyThenExpire (key : Bytes) (amount seconds : ℤ) : Except ResponseError ℤ × Database :=
  let (counted, db) := incrby server db now key amount
  let (expiring, db) := expire db now key seconds
  match counted, expiring with
  | .error e, _ => (.error ⟨server.annotation 1 key ++ e.message⟩, db)
  | .ok _, .error e => (.error ⟨server.annotation 2 key ++ e.message⟩, db)
  | .ok n, .ok _ => (.ok n, db)

end Database

/-! ## The backend -/

/-- `_VALUE_REFUSALS`. -/
def valueRefusals : List String := ["WRONGTYPE", "not an integer", "would overflow"]

/-- `_translate_state_errors`. -/
def translated {α : Type} (result : Except ResponseError α) : Except StateError α :=
  result.mapError fun e =>
    if valueRefusals.any fun text => decide (text.toList <:+: e.message.toList) then .valueError
      else .unavailable

/-- `_GLOB_METACHARACTERS`. -/
def globMetacharacters : List Char := ['\\', '*', '?', '[', ']']

/-- `glob_escape`. -/
def globEscape (literal : List Char) : List Char :=
  literal.flatMap fun c => if c ∈ globMetacharacters then ['\\', c] else [c]

/-- `delete_matching_keys`. -/
def deleteMatchingKeys (server : Server) (db : Database) (now : ℤ) (keyPattern : Bytes) : ℕ × Database :=
  let keysToDelete := server.scanIter (db.reap now) keyPattern
  FiniteMap.eraseBatches 100 keysToDelete (db.reap now)

namespace RedisState

variable (server : Server) (db : Database) (now : ℤ)

/-- `get`. -/
def get (key : Key) : Option Bytes × Database := (db.get now (utf8 key), db)

/-- `set`. -/
def set (key : Key) (value : Bytes) (ttlSeconds : Option ℤ) : Except StateError Unit × Database :=
  match checkTtl ttlSeconds with
  | .error e => (.error e, db)
  | .ok () =>
    let (stored, db) := db.set now (utf8 key) value ttlSeconds false
    (translated (stored.map fun _ => ()), db)

/-- `delete`. -/
def delete (key : Key) : Database := (db.del now [utf8 key]).2

/-- `incr`. -/
def incr (key : Key) (amount : ℤ) (ttlSeconds : Option ℤ) : Except StateError ℤ × Database :=
  match checkTtl ttlSeconds with
  | .error e => (.error e, db)
  | .ok () =>
    let (newValue, db) := match ttlSeconds with
      | none => db.incrby server now (utf8 key) amount
      | some seconds => db.incrbyThenExpire server now (utf8 key) amount seconds
    (translated newValue, db)

/-- `set_if_absent`. -/
def setIfAbsent (key : Key) (value : Bytes) (ttlSeconds : Option ℤ) : Except StateError Bool × Database :=
  match checkTtl ttlSeconds with
  | .error e => (.error e, db)
  | .ok () =>
    let (stored, db) := db.set now (utf8 key) value ttlSeconds true
    (translated stored, db)

/-- `get_and_delete`. -/
def getAndDelete (key : Key) : Option Bytes × Database := db.getdel now (utf8 key)

/-- `delete_prefix`. -/
def deletePrefix (start : Key) : Except StateError ℕ × Database :=
  match checkPrefix start with
  | .error e => (.error e, db)
  | .ok () =>
    let (deleted, db) := deleteMatchingKeys server db now (utf8 (globEscape start ++ ['*']))
    (.ok deleted, db)

/-- `iter_keys`; a key that is not text is skipped, and one listed again is not listed twice. -/
def iterKeys (start : Key) : List Key × Database :=
  (((server.scanIter (db.reap now) (utf8 (globEscape start ++ ['*']))).filterMap ofUtf8).eraseDups, db)

/-- A call on the backend. -/
def call : Call → Except StateError Reply × Database
  | .get key => let (value, db) := get db now key; (.ok (.value value), db)
  | .set key value ttl => let (done, db) := set db now key value ttl; (done.map fun _ => .done, db)
  | .delete key => (.ok .done, delete db now key)
  | .incr key amount ttl => let (n, db) := incr server db now key amount ttl; (n.map .number, db)
  | .setIfAbsent key value ttl => let (stored, db) := setIfAbsent db now key value ttl; (stored.map .stored, db)
  | .getAndDelete key => let (value, db) := getAndDelete db now key; (.ok (.value value), db)
  | .deletePrefix start => let (n, db) := deletePrefix server db now start; (n.map fun n => .number n, db)
  | .iterKeys start => let (keys, db) := iterKeys server db now start; (.ok (.keys keys.toFinset), db)

end RedisState

/-! ## Prefixes as patterns -/

/-- A pattern's sign stands for itself. -/
theorem head_matches_iff {b : UInt8} {key : Bytes} {g : Bytes → Bool} :
    (key.head?.elim false fun b' => decide (b = b') && g key.tail) = true
      ↔ ∃ rest, key = b :: rest ∧ g rest = true := by
  cases key with
  | nil =>
    refine iff_of_false Bool.false_ne_true ?_
    rintro ⟨rest, hnil, -⟩
    exact List.cons_ne_nil _ _ hnil.symm
  | cons b' rest =>
    show (decide (b = b') && g rest) = true ↔ _
    rw [Bool.and_eq_true, decide_eq_true_iff]
    constructor
    · rintro ⟨rfl, hrest⟩
      exact ⟨rest, rfl, hrest⟩
    · rintro ⟨rest', hcons, hrest⟩
      obtain ⟨rfl, rfl⟩ := List.cons.inj hcons
      exact ⟨rfl, hrest⟩

section Glob

variable (server : Server)

/-- Bytes without a meaning match themselves. -/
theorem globMatch_literals {bytes : Bytes} (h : ∀ b ∈ bytes, b ∉ globBytes) (pattern key : Bytes) :
    server.globMatch (bytes ++ pattern) key = true
      ↔ ∃ rest, key = bytes ++ rest ∧ server.globMatch pattern rest = true := by
  induction bytes generalizing key with
  | nil =>
    constructor
    · exact fun hkey => ⟨key, rfl, hkey⟩
    · rintro ⟨rest, rfl, hrest⟩
      exact hrest
  | cons b bytes ih =>
    obtain ⟨hb, hbytes⟩ := List.forall_mem_cons.mp h
    rw [List.cons_append, server.globMatch_literal _ _ _ hb, head_matches_iff]
    constructor
    · rintro ⟨rest, rfl, hrest⟩
      obtain ⟨rest', rfl, hrest'⟩ := (ih hbytes rest).mp hrest
      exact ⟨rest', rfl, hrest'⟩
    · rintro ⟨rest, rfl, hrest⟩
      exact ⟨bytes ++ rest, rfl, (ih hbytes _).mpr ⟨rest, rfl, hrest⟩⟩

/-- A character without a meaning has no byte with one. -/
theorem not_mem_globBytes {c : Char} (h : c ∉ globMetacharacters) :
    ∀ b ∈ String.utf8EncodeChar c, b ∉ globBytes := by
  intro b hb hglob
  have hsmall : b.toNat ∈ [92, 42, 63, 91, 93] := List.mem_map_of_mem (f := UInt8.toNat) hglob
  rcases utf8EncodeChar_cases c with ⟨hc, hbytes⟩ | ⟨-, hbytes⟩
  · rw [hbytes, List.mem_singleton] at hb
    rw [hb, UInt8.toNat_ofNat', Nat.mod_eq_of_lt (by omega)] at hsmall
    apply h
    rw [← Char.ofNat_toNat c]
    simp only [List.mem_cons, List.not_mem_nil, or_false] at hsmall
    rcases hsmall with hn | hn | hn | hn | hn
    all_goals
      rw [hn]
      decide
  · have hge := hbytes b hb
    simp only [List.mem_cons, List.not_mem_nil, or_false] at hsmall
    omega

/-- An escaped character matches itself. -/
theorem globMatch_character (c : Char) (pattern key : Bytes) :
    server.globMatch (utf8 (if c ∈ globMetacharacters then ['\\', c] else [c]) ++ pattern) key = true
      ↔ ∃ rest, key = utf8 [c] ++ rest ∧ server.globMatch pattern rest = true := by
  by_cases hc : c ∈ globMetacharacters
  · obtain ⟨b, hb⟩ : ∃ b, utf8 [c] = [b] := by
      simp only [globMetacharacters, List.mem_cons, List.not_mem_nil, or_false] at hc
      rcases hc with rfl | rfl | rfl | rfl | rfl
      all_goals exact ⟨_, rfl⟩
    have hpair : utf8 ['\\', c] = [92, b] := congrArg (92 :: ·) hb
    rw [if_pos hc, hpair, hb]
    show server.globMatch (92 :: b :: pattern) key = true ↔ _
    rw [server.globMatch_escaped, head_matches_iff]
    rfl
  · rw [if_neg hc]
    refine globMatch_literals server ?_ pattern key
    rw [utf8, List.flatMap_singleton]
    exact not_mem_globBytes hc

/-- **An escaped prefix followed by a star matches exactly what begins with the prefix.** -/
theorem globMatch_escape (start : Key) (key : Bytes) :
    server.globMatch (utf8 (globEscape start ++ ['*'])) key = true ↔ utf8 start <+: key := by
  induction start generalizing key with
  | nil => exact iff_of_true (server.globMatch_star key) List.nil_prefix
  | cons c start ih =>
    rw [globEscape, List.flatMap_cons, List.append_assoc, utf8_append, globMatch_character]
    constructor
    · rintro ⟨rest, rfl, hrest⟩
      obtain ⟨rest', rfl⟩ := (ih rest).mp hrest
      refine ⟨rest', ?_⟩
      rw [← List.append_assoc, ← utf8_append]
      rfl
    · rintro ⟨rest, rfl⟩
      refine ⟨utf8 start ++ rest, ?_, (ih _).mpr (List.prefix_append _ _)⟩
      rw [← List.append_assoc, ← utf8_append]
      rfl

end Glob

/-! ## What the calls do to what is live -/

variable {server : Server} {db : Database} {now : ℤ}

/-- What is live with the expiry of one key set anew, if the key is there. -/
def withExpiry (redis : Live ℤ Bytes) (bytes : Bytes) (expiry : Option ℤ) : Live ℤ Bytes :=
  match redis bytes with
  | none => redis
  | some entry => Function.update redis bytes (some { entry with expiry := expiry })

/-- A new expiry lies in the future. -/
theorem alive_expiryAt {ttlSeconds : Option ℤ} {value : Bytes} (h : ∀ ttl ∈ ttlSeconds, 0 < ttl) :
    alive now ⟨value, expiryAt now ttlSeconds⟩ = true := by
  cases ttlSeconds with
  | none => rfl
  | some ttl =>
    show decide (now < now + 1000 * ttl) = true
    have hpos := h ttl rfl
    rw [decide_eq_true_iff]
    omega

namespace Database

variable {key : Bytes}

/-- What is reaped was not live. -/
theorem live_reap : live now (db.reap now) = live now db := by
  refine live_retain fun entry halive => ?_
  rw [alive, Option.all_eq_true] at halive
  rw [Option.all_eq_true]
  intro expiry hexpiry
  exact decide_eq_true (of_decide_eq_true (halive expiry hexpiry)).le

/-- Where nothing expires at this instant, what the server keeps is what is live. -/
theorem lookup_reap (h : NotHit now db) (key : Bytes) : (db.reap now).lookup key = live now db key := by
  rw [reap, FiniteMap.lookup_retain, live]
  cases hlookup : db.lookup key with
  | none => rfl
  | some entry =>
    have hne := h key entry hlookup
    rw [Option.filter_some, Option.filter_some]
    congr 1
    rcases entry with ⟨value, _ | expiry⟩
    · rfl
    · refine propext ⟨fun hle => ?_, fun hlt => ?_⟩
      · exact decide_eq_true (lt_of_le_of_ne (of_decide_eq_true hle) fun heq => hne (heq ▸ rfl))
      · exact decide_eq_true (of_decide_eq_true hlt).le

/-- After a reap every key is live. -/
theorem mem_reap (h : NotHit now db) : key ∈ db.reap now ↔ live now db key ≠ none := by
  rw [← AList.lookup_isSome, lookup_reap h, Option.isSome_iff_ne_none]

/-- What is alive does not expire now. -/
theorem expiry_ne_of_alive {entry : Entry ℤ} (h : alive now entry = true) : entry.expiry ≠ some now := by
  intro hnow
  rw [alive, hnow] at h
  exact lt_irrefl now (of_decide_eq_true h)

/-- What is live is alive. -/
theorem alive_of_live {entry : Entry ℤ} (h : live now db key = some entry) : alive now entry = true :=
  (Option.filter_eq_some_iff.mp h).2

/-- A reap hits no instant. -/
theorem notHit_reap (h : NotHit now db) : NotHit now (db.reap now) := by
  intro key entry hentry
  rw [lookup_reap h] at hentry
  exact expiry_ne_of_alive (alive_of_live hentry)

/-- Nor does an insertion of what is alive. -/
theorem notHit_insert {entry : Entry ℤ} (h : NotHit now db) (halive : alive now entry = true) :
    NotHit now (db.insert key entry) := by
  intro other found hfound
  by_cases hkey : other = key
  · rw [hkey, AList.lookup_insert, Option.some.injEq] at hfound
    rw [← hfound]
    exact expiry_ne_of_alive halive
  · rw [AList.lookup_insert_ne hkey] at hfound
    exact h other found hfound

/-- A value is read when its entry is live. -/
theorem get_eq (h : NotHit now db) : db.get now key = (live now db key).map Entry.value := by
  rw [get, lookup_reap h]

/-- `SET` of an expiry within range. -/
theorem set_spec (key value : Bytes) (nx : Bool) {ex : Option ℤ} (h : NotHit now db)
    (hex : ∀ seconds ∈ ex, ValidExpiry now seconds) :
    if nx = true ∧ live now db key ≠ none then
      (db.set now key value ex nx).1 = .ok false ∧ live now (db.set now key value ex nx).2 = live now db
    else (db.set now key value ex nx).1 = .ok true
      ∧ live now (db.set now key value ex nx).2
        = Function.update (live now db) key (some ⟨value, expiryAt now ex⟩) := by
  have hrange : ¬ ∃ seconds ∈ ex, ¬ ValidExpiry now seconds := by
    rintro ⟨seconds, hmem, hbad⟩
    exact hbad (hex seconds hmem)
  rw [set, if_neg hrange]
  by_cases htaken : nx = true ∧ live now db key ≠ none
  · rw [if_pos htaken, if_pos ⟨htaken.1, (mem_reap h).mpr htaken.2⟩]
    exact ⟨rfl, live_reap⟩
  · rw [if_neg htaken, if_neg fun htaken' => htaken ⟨htaken'.1, (mem_reap h).mp htaken'.2⟩]
    refine ⟨rfl, ?_⟩
    rw [live_insert (alive_expiryAt fun seconds hmem => (hex seconds hmem).1), live_reap]

/-- What `INCRBY` finds, when it counts: a number of 64 bits, which stays one. -/
def Reads (server : Server) (found : Option (Entry ℤ)) (amount current : ℤ) : Prop :=
  found.elim (some 0) (fun entry => server.readInteger entry.value) = some current
    ∧ Int64 amount ∧ Int64 (current + amount)

/-- The entry that a count leaves. -/
def counted (found : Option (Entry ℤ)) (sum : ℤ) : Entry ℤ := ⟨decimal sum, found.bind Entry.expiry⟩

/-- A counter that is alive stays so when it is raised. -/
theorem alive_counted (now : ℤ) (db : Database) (key : Bytes) (sum : ℤ) :
    alive now (counted (live now db key) sum) = true := by
  cases hfound : live now db key with
  | none => rfl
  | some entry =>
    have halive := alive_of_live hfound
    exact halive

/-- A counter that is read is raised. -/
theorem incrby_of_reads {amount current : ℤ} (h : NotHit now db)
    (hreads : Reads server (live now db key) amount current) :
    db.incrby server now key amount
      = (.ok (current + amount), (db.reap now).insert key (counted (live now db key) (current + amount))) := by
  obtain ⟨hcurrent, hamount, hsum⟩ := hreads
  rw [incrby, if_neg (not_not.mpr hamount), lookup_reap h, hcurrent]
  dsimp only
  rw [if_neg (not_not.mpr hsum), counted]

/-- Refused, it is refused for the value, and nothing changes. -/
theorem incrby_of_not_reads {amount : ℤ} (h : NotHit now db)
    (hreads : ¬ ∃ current, Reads server (live now db key) amount current) :
    ∃ e, db.incrby server now key amount = (.error e, db.reap now)
      ∧ ∃ text ∈ valueRefusals, text.toList <:+: e.message.toList := by
  rw [incrby]
  by_cases hamount : Int64 amount
  · rw [if_neg (not_not.mpr hamount), lookup_reap h]
    cases hcurrent : (live now db key).elim (some 0) fun entry => server.readInteger entry.value with
    | none => exact ⟨_, rfl, "not an integer", by decide, by decide⟩
    | some current =>
      have hsum : ¬ Int64 (current + amount) := fun hsum => hreads ⟨current, hcurrent, hamount, hsum⟩
      dsimp only
      rw [if_pos hsum]
      exact ⟨_, rfl, "would overflow", by decide, by decide⟩
  · rw [if_pos hamount]
    exact ⟨_, rfl, "not an integer", by decide, by decide⟩

/-- `EXPIRE` within range sets the expiry of what is there. -/
theorem expire_spec {seconds : ℤ} (h : NotHit now db) (hvalid : ValidExpiry now seconds) :
    (∃ set, (db.expire now key seconds).1 = .ok set)
      ∧ live now (db.expire now key seconds).2
        = withExpiry (live now db) key (expiryAt now (some seconds)) := by
  rw [expire, if_neg (not_not.mpr hvalid), lookup_reap h, withExpiry]
  cases hfound : live now db key with
  | none => exact ⟨⟨_, rfl⟩, live_reap⟩
  | some entry =>
    refine ⟨⟨_, rfl⟩, ?_⟩
    dsimp only
    rw [live_insert (alive_expiryAt fun _ hmem => Option.some.inj hmem ▸ hvalid.1), live_reap]

end Database

namespace RedisState

open Database

variable {key : Key} {amount : ℤ} {ttlSeconds : Option ℤ}

/-- A refusal of the server that names a value is a `ValueError`. -/
theorem translated_refusal {α : Type} {e : ResponseError}
    (h : ∃ text ∈ valueRefusals, text.toList <:+: e.message.toList) :
    translated (.error e : Except ResponseError α) = .error .valueError := by
  obtain ⟨text, hmem, hinfix⟩ := h
  have hany : (valueRefusals.any fun text => decide (text.toList <:+: e.message.toList)) = true :=
    List.any_eq_true.mpr ⟨text, hmem, decide_eq_true hinfix⟩
  show Except.error (if _ then _ else _) = _
  rw [if_pos hany]

/-- An expiry that both backends take. -/
def ValidTtl (now : ℤ) (ttlSeconds : Option ℤ) : Prop := ∀ seconds ∈ ttlSeconds, ValidExpiry now seconds

/-- A valid TTL is positive. -/
theorem ValidTtl.pos (h : ValidTtl now ttlSeconds) : ∀ ttl ∈ ttlSeconds, 0 < ttl :=
    fun ttl hmem => (h ttl hmem).1

/-- **An increment that reads and makes numbers of 64 bits counts.** -/
theorem incr_of_reads {current : ℤ} (h : NotHit now db) (hvalid : ValidTtl now ttlSeconds)
    (hreads : Reads server (live now db (utf8 key)) amount current) :
    (incr server db now key amount ttlSeconds).1 = .ok (current + amount)
      ∧ live now (incr server db now key amount ttlSeconds).2 = Function.update (live now db) (utf8 key)
        (some ⟨decimal (current + amount), expiryAfter (expiryAt now ttlSeconds) (live now db (utf8 key))⟩) := by
  unfold incr
  rw [checkTtl_ok hvalid.pos]
  cases ttlSeconds with
  | none =>
    dsimp only
    rw [incrby_of_reads h hreads]
    refine ⟨rfl, ?_⟩
    rw [live_insert (alive_counted now db _ _), live_reap]
    rfl
  | some seconds =>
    dsimp only
    rw [incrbyThenExpire, incrby_of_reads h hreads]
    dsimp only
    -- what it counted is there for the expiry
    have halive := alive_counted now db (utf8 key) (current + amount)
    have hlater : NotHit now ((db.reap now).insert (utf8 key) _) := notHit_insert (notHit_reap h) halive
    obtain ⟨⟨set, hset⟩, hexpiry⟩ := expire_spec hlater (hvalid seconds rfl)
    rw [hset]
    refine ⟨rfl, ?_⟩
    dsimp only
    rw [hexpiry, live_insert halive, withExpiry, Function.update_self]
    dsimp only
    rw [Function.update_idem, live_reap]
    rfl

/-- **Refused, the key still gets the expiry**, if it was there. -/
theorem incr_of_not_reads (h : NotHit now db) (hvalid : ValidTtl now ttlSeconds)
    (hreads : ¬ ∃ current, Reads server (live now db (utf8 key)) amount current) :
    (incr server db now key amount ttlSeconds).1 = .error .valueError
      ∧ live now (incr server db now key amount ttlSeconds).2 =
        ttlSeconds.elim (live now db) fun seconds =>
          withExpiry (live now db) (utf8 key) (expiryAt now (some seconds)) := by
  obtain ⟨e, he, text, hmem, hinfix⟩ := incrby_of_not_reads h hreads
  unfold incr
  rw [checkTtl_ok hvalid.pos]
  cases ttlSeconds with
  | none =>
    dsimp only
    rw [he]
    exact ⟨translated_refusal ⟨text, hmem, hinfix⟩, live_reap⟩
  | some seconds =>
    dsimp only
    rw [incrbyThenExpire, he]
    dsimp only
    constructor
    · refine translated_refusal ⟨text, hmem, hinfix.trans ?_⟩
      rw [String.toList_append]
      exact (List.suffix_append _ _).isInfix
    · rw [(expire_spec (notHit_reap h) (hvalid seconds rfl)).2, live_reap]
      rfl

end RedisState

namespace RedisState

variable {start : Key}

/-- What a scan for an escaped prefix lists. -/
theorem mem_scan (h : NotHit now db) {bytes : Bytes} :
    bytes ∈ server.scanIter (db.reap now) (utf8 (globEscape start ++ ['*']))
      ↔ live now db bytes ≠ none ∧ utf8 start <+: bytes := by
  rw [server.mem_scanIter, globMatch_escape, Database.mem_reap h]

/-- What `delete_prefix` deletes. -/
theorem deletePrefix_spec (server : Server) (h : NotHit now db) (hstart : start ≠ []) :
    (deletePrefix server db now start).1
        = .ok (server.scanIter (db.reap now) (utf8 (globEscape start ++ ['*']))).toFinset.card
      ∧ live now (deletePrefix server db now start).2
        = fun bytes => if utf8 start <+: bytes then none else live now db bytes := by
  rw [deletePrefix, checkPrefix, if_neg hstart]
  dsimp only
  rw [deleteMatchingKeys, FiniteMap.eraseBatches_eq (by decide)]
  constructor
  · rw [FiniteMap.card_eraseAll, Finset.filter_true_of_mem]
    intro bytes hbytes
    exact ((server.mem_scanIter _ _ _).mp (List.mem_toFinset.mp hbytes)).1
  · funext bytes
    rw [live, FiniteMap.lookup_eraseAll]
    by_cases hbytes : utf8 start <+: bytes
    · rw [if_pos hbytes]
      split
      · rfl
      · rename_i hmissing
        rw [mem_scan h] at hmissing
        rw [Database.lookup_reap h]
        cases hfound : live now db bytes with
        | none => rfl
        | some entry => exact absurd ⟨hfound ▸ Option.some_ne_none entry, hbytes⟩ hmissing
    · rw [if_neg hbytes, if_neg fun hmem => hbytes ((mem_scan h).mp hmem).2]
      exact congrFun Database.live_reap bytes

end RedisState

end Jasil.State
