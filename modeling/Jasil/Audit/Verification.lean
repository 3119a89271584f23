import Jasil.Audit.Checkpoints

/-! # Verifying checkpoints
`verify_checkpoints`: the windows of a range are read and hashed again and compared with their checkpoints.

* **`windowVerification`**: the verdict on one window, with its five checks.
* **`verifyCheckpoints`**: the report on a range.
* **`reportsOk_iff`**: a range is reported ok when it is **`RangeOk`**, which says so check by check. -/

namespace Jasil.Audit

/-! ## The report -/

/-- What is found of a window. -/
inductive VerificationStatus
  | ok
  | rowMismatch
  | missingWindow
  | brokenChain
  | badSignature
  deriving DecidableEq

/-- The result of verifying one window. -/
structure WindowVerification where
  windowStart : Instant
  windowEnd : Instant
  status : VerificationStatus
  pruned : Bool := false
  expectedRows : Option ℤ := none
  actualRows : Option ℤ := none

/-- What `verify_checkpoints` returns. -/
structure VerificationReport where
  ok : Bool
  signed : Bool
  windows : List WindowVerification

/-- `_missing`. -/
def missing (start stop : Instant) : WindowVerification :=
  { windowStart := start, windowEnd := stop, status := .missingWindow }

/-! ## Signatures and pruning -/

/-- The verifying keys, each with its key id. -/
abbrev Verifiers := List (String × String)

/-- `_verifiers`: no keys when signatures are not checked. -/
def loadVerifiers (crypto : Crypto) : Option (List String) → Except String Verifiers
  | none => .ok []
  | some keys =>
    if keys = [] then
      .error "pass at least one public key, or None to check hashes and chain only"
    else if keys.all crypto.isKey then .ok (keys.map fun key => (crypto.keyId key, key))
    else .error "the public key must be the base64 of a 32-byte Ed25519 public key"

/-- The key with this id; of two keys with one id the later. -/
def Verifiers.get (verifiers : Verifiers) (keyId : String) : Option String :=
  (verifiers.reverse.find? (·.1 = keyId)).map (·.2)

/-- `_signature_ok`. -/
def signatureOk (crypto : Crypto) (verifiers : Verifiers) (c : AuditCheckpoint) (instanceId : String) :
    Bool :=
  match c.keyId.bind verifiers.get, c.signature with
  | some key, some signature => crypto.verify key signature (message c instanceId)
  | _, _ => false

/-- The checkpoint counts: its signature verifies, when there are keys. -/
def Trusted (crypto : Crypto) (verifiers : Verifiers) (instanceId : String) (c : AuditCheckpoint) : Prop :=
  verifiers = [] ∨ signatureOk crypto verifiers c instanceId = true

instance (crypto : Crypto) (verifiers : Verifiers) (instanceId : String) :
    DecidablePred (Trusted crypto verifiers instanceId) :=
  fun _ => inferInstanceAs (Decidable (_ ∨ _))

/-- `_pruning_horizon`: the latest window end that a checkpoint allows to have been pruned. -/
def pruningHorizon (crypto : Crypto) (checkpoints : CheckpointTable) (verifiers : Verifiers)
    (instanceId : String) : Option Instant :=
  let stored := checkpoints.select fun c => c.retentionDays > 0 ∧ c.legalHold = false
  let candidates := stored.filterMap fun c => (retentionHorizon c).map (·, c)
  ((sortBy (fun candidate => -candidate.1) candidates).find? fun candidate =>
    Trusted crypto verifiers instanceId candidate.2).map (·.1)

/-! ## One window -/

/-- The rows of the window are those that were sealed. -/
def RowsMatch (crypto : Crypto) (log : LogTable) (c : AuditCheckpoint) : Prop :=
  digest crypto log c.windowStart c.windowEnd c.prevHash = ⟨c.rowCount, c.hash⟩

instance (crypto : Crypto) (log : LogTable) : DecidablePred (RowsMatch crypto log) :=
  fun _ => inferInstanceAs (Decidable (_ = _))

/-- The rows of the window are gone, and a checkpoint allows it. -/
def Pruned (crypto : Crypto) (log : LogTable) (horizon : Option Instant) (c : AuditCheckpoint) : Prop :=
  ¬RowsMatch crypto log c ∧ (digest crypto log c.windowStart c.windowEnd c.prevHash).rowCount = 0
    ∧ c.rowCount > 0 ∧ ∃ h ∈ horizon, c.windowEnd ≤ h

instance (crypto : Crypto) (log : LogTable) (horizon : Option Instant) :
    DecidablePred (Pruned crypto log horizon) :=
  fun _ => inferInstanceAs (Decidable (_ ∧ _))

/-- The verdict on a window, after the one before it. -/
def windowVerification (crypto : Crypto) (log : LogTable) (verifiers : Verifiers) (instanceId : String)
    (horizon : Option Instant) (previous : Option AuditCheckpoint) (c : AuditCheckpoint) :
    WindowVerification :=
  let status :=
    if RowsMatch crypto log c ∨ Pruned crypto log horizon c then VerificationStatus.ok
    else .rowMismatch
  let status :=
    if status = .ok ∧ ¬Trusted crypto verifiers instanceId c then .badSignature else status
  -- Without a predecessor the first checkpoint must start the chain.
  let status :=
    if status = .ok ∧ c.prevHash ≠ previous.map (·.hash) then .brokenChain else status
  { windowStart := c.windowStart, windowEnd := c.windowEnd, status := status,
    pruned := decide (Pruned crypto log horizon c), expectedRows := some c.rowCount,
    actualRows :=
      if Pruned crypto log horizon c then none
      else some (digest crypto log c.windowStart c.windowEnd c.prevHash).rowCount }

/-- The gap between a checkpoint and the one before it. -/
def gapBefore (previous : Option AuditCheckpoint) (c : AuditCheckpoint) : List WindowVerification :=
  match previous with
  | some previous =>
    if previous.windowEnd ≠ c.windowStart then [missing previous.windowEnd c.windowStart] else []
  | none => []

/-- The windows of a range one after the other. -/
def verifyWindows (crypto : Crypto) (log : LogTable) (verifiers : Verifiers) (instanceId : String)
    (horizon : Option Instant) : Option AuditCheckpoint → List AuditCheckpoint → List WindowVerification
  | _, [] => []
  | previous, c :: cs =>
    gapBefore previous c
      ++ windowVerification crypto log verifiers instanceId horizon previous c
      :: verifyWindows crypto log verifiers instanceId horizon (some c) cs

/-! ## A range -/

/-- `MAX_VERIFY_RANGE`. -/
def maxVerifyRange : ℤ := 366 * day

/-- The tables a verification reads. -/
structure AuditTables where
  log : LogTable
  checkpoints : CheckpointTable
  instanceId : Option String

/-- The checkpoints, oldest first. -/
def AuditTables.sorted (db : AuditTables) : List AuditCheckpoint :=
  sortBy AuditCheckpoint.windowStart db.checkpoints.rows

/-- The newest checkpoint that starts before the range. -/
def AuditTables.previous (db : AuditTables) (fromTs : Instant) : Option AuditCheckpoint :=
  (db.sorted.filter fun c => c.windowStart < fromTs).getLast?

/-- The checkpoints whose window lies inside the range. -/
def AuditTables.inside (db : AuditTables) (fromTs toTs : Instant) : List AuditCheckpoint :=
  db.sorted.filter fun c => fromTs ≤ c.windowStart ∧ c.windowEnd ≤ toTs

/-- The last of the windows checked, the one before them when there is none. -/
def lastChecked (previous : Option AuditCheckpoint) (cs : List AuditCheckpoint) :
    Option AuditCheckpoint := cs.getLast?.or previous

/-- Rows of the range dated before the first checkpoint. -/
def orphanRows (log : LogTable) (first : AuditCheckpoint) (fromTs toTs : Instant) :
    List WindowVerification :=
  if fromTs < first.windowStart then
    let unsealedEnd := min first.windowStart toTs
    let orphans := log.rowcount (InWindow fromTs unsealedEnd)
    if orphans = 0 then []
    else
      [{ windowStart := fromTs, windowEnd := unsealedEnd, status := .rowMismatch,
         expectedRows := some 0, actualRows := some orphans }]
  else []

/-- The gap after the last window checked. -/
def gapAfter (db : AuditTables) (last : Option AuditCheckpoint) (toTs : Instant) :
    List WindowVerification :=
  match last with
  | none => []
  | some previous =>
    if previous.windowEnd < toTs then
      match db.sorted.find? fun c => previous.windowEnd ≤ c.windowStart with
      | some following =>
        if following.windowStart ≠ previous.windowEnd then
          [missing previous.windowEnd following.windowStart]
        else []
      | none => []
    else []

/-- The report on a range, given the keys. -/
def verifyRange (crypto : Crypto) (db : AuditTables) (verifiers : Verifiers) (fromTs toTs : Instant) :
    VerificationReport :=
  match db.sorted.head? with
  | none => { ok := true, signed := decide (verifiers ≠ []), windows := [] }
  | some first =>
    let instanceId := db.instanceId.getD ""
    let horizon := pruningHorizon crypto db.checkpoints verifiers instanceId
    let inside := db.inside fromTs toTs
    let results := orphanRows db.log first fromTs toTs
      ++ (verifyWindows crypto db.log verifiers instanceId horizon (db.previous fromTs) inside
      ++ gapAfter db (lastChecked (db.previous fromTs) inside) toTs)
    { ok := results.all fun result => result.status = .ok, signed := decide (verifiers ≠ []),
      windows := results }

/-- `verify_checkpoints`. -/
def verifyCheckpoints (crypto : Crypto) (db : AuditTables) (publicKey : Option (List String))
    (fromTs toTs : Instant) : Except String VerificationReport :=
  if fromTs > toTs then
    .error ("from_ts (" ++ isoformat fromTs ++ ") is after to_ts (" ++ isoformat toTs ++ ")")
  else if toTs - fromTs > maxVerifyRange then
    .error ("the range may cover at most " ++ toString (maxVerifyRange / day)
      ++ " days; verify a longer one in parts")
  else do
    let verifiers ← loadVerifiers crypto publicKey
    .ok (verifyRange crypto db verifiers fromTs toTs)

/-- The range is verified and everything in it is ok. -/
def ReportsOk (crypto : Crypto) (db : AuditTables) (publicKey : Option (List String))
    (fromTs toTs : Instant) : Prop :=
  ∃ report, verifyCheckpoints crypto db publicKey fromTs toTs = .ok report ∧ report.ok = true

/-! ## What an ok says -/

section Ok

variable {crypto : Crypto} {log : LogTable} {verifiers : Verifiers} {instanceId : String}
  {horizon : Option Instant} {previous : Option AuditCheckpoint} {c : AuditCheckpoint}
  {cs : List AuditCheckpoint} {db : AuditTables} {fromTs toTs : Instant}

/-- A window with nothing wrong about it: its rows, its signature, its link to the checkpoint before it, and
no gap between the two. -/
structure WindowOk (crypto : Crypto) (log : LogTable) (verifiers : Verifiers) (instanceId : String)
    (horizon : Option Instant) (previous : Option AuditCheckpoint) (c : AuditCheckpoint) : Prop where
  rows : RowsMatch crypto log c ∨ Pruned crypto log horizon c
  trusted : Trusted crypto verifiers instanceId c
  link : c.prevHash = previous.map (·.hash)
  adjacent : ∀ p ∈ previous, p.windowEnd = c.windowStart

/-- Windows with nothing wrong, one after the other. -/
def WindowsOk (crypto : Crypto) (log : LogTable) (verifiers : Verifiers) (instanceId : String)
    (horizon : Option Instant) : Option AuditCheckpoint → List AuditCheckpoint → Prop
  | _, [] => True
  | previous, c :: cs => WindowOk crypto log verifiers instanceId horizon previous c
      ∧ WindowsOk crypto log verifiers instanceId horizon (some c) cs

/-- A range with nothing wrong. -/
structure RangeOk (crypto : Crypto) (db : AuditTables) (verifiers : Verifiers)
    (fromTs toTs : Instant) : Prop where
  /-- No row is dated before the first checkpoint. -/
  orphans : ∀ first ∈ db.sorted.head?, fromTs < first.windowStart →
    ∀ r ∈ db.log.rows, ¬InWindow fromTs (min first.windowStart toTs) r
  windows : WindowsOk crypto db.log verifiers (db.instanceId.getD "")
    (pruningHorizon crypto db.checkpoints verifiers (db.instanceId.getD "")) (db.previous fromTs)
    (db.inside fromTs toTs)
  /-- The next checkpoint starts where the last one checked ends. -/
  trailing : ∀ last ∈ lastChecked (db.previous fromTs) (db.inside fromTs toTs), last.windowEnd < toTs →
    ∀ next ∈ db.sorted.find? (fun c => last.windowEnd ≤ c.windowStart),
      next.windowStart = last.windowEnd

/-- A window is found to be good exactly when its rows match or were pruned, its signature is trusted and it
names the hash of the one before. -/
theorem status_ok_iff :
    (windowVerification crypto log verifiers instanceId horizon previous c).status = .ok ↔
      (RowsMatch crypto log c ∨ Pruned crypto log horizon c)
        ∧ Trusted crypto verifiers instanceId c ∧ c.prevHash = previous.map (·.hash) := by
  unfold windowVerification
  by_cases hrows : RowsMatch crypto log c ∨ Pruned crypto log horizon c
  · by_cases htrusted : Trusted crypto verifiers instanceId c
    · by_cases hlink : c.prevHash = previous.map (·.hash)
      · simp [hrows, htrusted, hlink]
      · simp [hrows, htrusted, hlink]
    · simp [hrows, htrusted]
  · simp [hrows]

/-- No gap is found before a window exactly when it starts where the one before ends. -/
theorem gapBefore_ok_iff :
    (∀ result ∈ gapBefore previous c, result.status = .ok) ↔
      ∀ p ∈ previous, p.windowEnd = c.windowStart := by
  cases previous with
  | none => simp [gapBefore]
  | some p =>
    by_cases h : p.windowEnd = c.windowStart
    · simp [gapBefore, h]
    · simp [gapBefore, missing, h]

/-- All windows are found to be good exactly when each of them is, and none is missing between two. -/
theorem verifyWindows_ok_iff :
    (∀ result ∈ verifyWindows crypto log verifiers instanceId horizon previous cs, result.status = .ok)
      ↔ WindowsOk crypto log verifiers instanceId horizon previous cs := by
  induction cs generalizing previous with
  | nil => simp [verifyWindows, WindowsOk]
  | cons c cs ih =>
    rw [verifyWindows, WindowsOk, List.forall_mem_append, List.forall_mem_cons, gapBefore_ok_iff,
      status_ok_iff, ih]
    constructor
    · rintro ⟨hgap, ⟨hrows, htrusted, hlink⟩, hrest⟩
      exact ⟨⟨hrows, htrusted, hlink, hgap⟩, hrest⟩
    · rintro ⟨⟨hrows, htrusted, hlink, hgap⟩, hrest⟩
      exact ⟨hgap, ⟨hrows, htrusted, hlink⟩, hrest⟩

/-- No row is found before the first window exactly when there is none in the range. -/
theorem orphanRows_ok_iff {first : AuditCheckpoint} :
    (∀ result ∈ orphanRows log first fromTs toTs, result.status = .ok) ↔
      (fromTs < first.windowStart →
        ∀ r ∈ log.rows, ¬InWindow fromTs (min first.windowStart toTs) r) := by
  unfold orphanRows
  by_cases h : fromTs < first.windowStart
  · rw [if_pos h]
    dsimp only
    split
    · rename_i hzero
      simpa [h, Table.rowcount, List.countP_eq_zero] using hzero
    · rename_i hsome
      simpa [h, Table.rowcount, List.countP_eq_zero] using hsome
  · simp [h]

/-- No gap is found at the end of the range exactly when the next window starts where the last one ends. -/
theorem gapAfter_ok_iff {last : Option AuditCheckpoint} :
    (∀ result ∈ gapAfter db last toTs, result.status = .ok) ↔
      ∀ p ∈ last, p.windowEnd < toTs →
        ∀ next ∈ db.sorted.find? (fun c => p.windowEnd ≤ c.windowStart),
          next.windowStart = p.windowEnd := by
  unfold gapAfter
  cases last with
  | none => simp
  | some p =>
    by_cases h : p.windowEnd < toTs
    · cases hnext : db.sorted.find? (fun c => p.windowEnd ≤ c.windowStart) with
      | none => simp [hnext]
      | some next =>
        by_cases heq : next.windowStart = p.windowEnd
        · simp [hnext, heq]
        · simp [h, hnext, heq, missing]
    · simp [h]

/-- **A range is found to be good** exactly when there is no checkpoint at all, or everything in the range is
as it was sealed. -/
theorem verifyRange_ok_iff :
    (verifyRange crypto db verifiers fromTs toTs).ok = true ↔
      db.checkpoints.rows = [] ∨ RangeOk crypto db verifiers fromTs toTs := by
  have hnil : db.sorted.head? = none ↔ db.checkpoints.rows = [] := by
    rw [List.head?_eq_none_iff, AuditTables.sorted, ← List.length_eq_zero_iff,
      (sortBy_perm _ _).length_eq, List.length_eq_zero_iff]
  unfold verifyRange
  cases hfirst : db.sorted.head? with
  | none => simp [hnil.mp hfirst]
  | some first =>
    have hne : db.checkpoints.rows ≠ [] := fun h => nomatch hfirst.symm.trans (hnil.mpr h)
    simp only [List.all_eq_true, decide_eq_true_eq, List.forall_mem_append, orphanRows_ok_iff,
      verifyWindows_ok_iff, gapAfter_ok_iff, hne, false_or]
    constructor
    · rintro ⟨horphans, hwindows, htrailing⟩
      refine ⟨fun first' hfirst' => ?_, hwindows, htrailing⟩
      rwa [Option.some.inj (hfirst.symm.trans hfirst')] at horphans
    · intro h
      exact ⟨h.orphans first hfirst, h.windows, h.trailing⟩

/-- **A range is reported ok** when the keys can be read, the range is one the verifier accepts, and nothing is
wrong in it. -/
theorem reportsOk_iff {publicKey : Option (List String)} :
    ReportsOk crypto db publicKey fromTs toTs ↔
      fromTs ≤ toTs ∧ toTs - fromTs ≤ maxVerifyRange ∧
        ∃ verifiers, loadVerifiers crypto publicKey = .ok verifiers
          ∧ (db.checkpoints.rows = [] ∨ RangeOk crypto db verifiers fromTs toTs) := by
  unfold ReportsOk verifyCheckpoints
  by_cases hle : fromTs > toTs
  · simp [hle, not_le.mpr hle]
  by_cases hrange : toTs - fromTs > maxVerifyRange
  · simp [hle, hrange, not_le.mpr hrange]
  rw [if_neg hle, if_neg hrange]
  cases hload : loadVerifiers crypto publicKey with
  | error e => simp [bind, Except.bind]
  | ok verifiers =>
    simp only [bind, Except.bind, Except.ok.injEq, exists_eq_left', verifyRange_ok_iff]
    simp [not_lt.mp hle, not_lt.mp hrange]

end Ok

end Jasil.Audit
