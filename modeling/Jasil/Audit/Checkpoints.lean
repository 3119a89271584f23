import Jasil.Audit.CanonicalRows
import Jasil.Audit.Settings

/-! # Sealing a window
What a checkpoint is computed from, what its signature covers, and which windows are due.

* **`digest`**: the number of rows of a window, and their hash together with the hash of the window before.
* **`message`**, **`sealed`**: the bytes a signature covers, and the signed checkpoint.
* **`windowEnd`**, **`firstStart`**, **`dueWindows`**: the windows `seal_pending_windows` seals.
* **`retentionHorizon`**: how far retention may have pruned under a checkpoint. -/

namespace Jasil.Audit

/-! ## Hashes and signatures -/

/-- SHA-256 and Ed25519. Keys, signatures and hashes are texts, as the settings and the tables hold them. -/
structure Crypto where
  /-- The hash in hexadecimal digits. -/
  sha256 : List Char → String
  /-- The signature under a signing key. -/
  sign : String → List Char → String
  /-- The key id of a signing key, which is that of its public half. -/
  signerId : String → String
  /-- The text is the Base64 of a public key. -/
  isKey : String → Bool
  /-- The key id of a public key. -/
  keyId : String → String
  /-- The signature verifies under a public key. -/
  verify : String → String → List Char → Bool

/-- A hash function and a signature that say nothing. -/
def blankCrypto : Crypto where
  sha256 _ := "00"
  sign _ _ := ""
  signerId _ := ""
  isKey _ := true
  keyId _ := ""
  verify _ _ _ := true

/-- `sha256` of a window's rows and how many there are. -/
structure Digest where
  rowCount : ℤ
  hash : String
  deriving DecidableEq

/-- A row of the window. -/
def InWindow (start stop : Instant) (r : AuditLog) : Prop := start ≤ r.occurredAt ∧ r.occurredAt < stop

instance (start stop : Instant) : DecidablePred (InWindow start stop) :=
  fun _ => inferInstanceAs (Decidable (_ ∧ _))

/-- The rows of a window as the database returns them. -/
def fetchWindow (log : LogTable) (start stop : Instant) : List FetchedRow :=
  (sortBy AuditLog.occurredAt (log.select (InWindow start stop))).map AuditLog.fetched

/-- `_digest`. -/
def digest (crypto : Crypto) (log : LogTable) (start stop : Instant) (prevHash : Option String) :
    Digest :=
  let rows := fetchWindow log start stop
  { rowCount := rows.length, hash := crypto.sha256 (digestStream rows prevHash) }

/-- `_MESSAGE_PREFIX`. -/
def messagePrefix : String := "jasil-audit-checkpoint-v1"

/-- `_message`: the deployment, the window, its rows, the link of the chain and the retention. -/
def message (c : AuditCheckpoint) (instanceId : String) : List Char :=
  ['|'].intercalate [messagePrefix.toList, instanceId.toList,
    (isoformatMicroseconds c.windowStart).toList, (isoformatMicroseconds c.windowEnd).toList,
    (intText c.rowCount).chars, c.hash.toList, (c.prevHash.getD "").toList,
    (intText c.retentionDays).chars, [if c.legalHold then '1' else '0']]

/-- `_sealed`: sign the checkpoint, when a key is configured. -/
def sealed (crypto : Crypto) (signingKey : Option String) (c : AuditCheckpoint) (instanceId : String) :
    AuditCheckpoint :=
  { c with
    signature := signingKey.map fun key => crypto.sign key (message c instanceId)
    keyId := signingKey.map crypto.signerId }

/-- The checkpoint of a window, sealed under the settings. -/
def sealWindow (crypto : Crypto) (settings : AuditSettings) (log : LogTable) (instanceId : String)
    (start stop : Instant) (prevHash : Option String) : AuditCheckpoint :=
  let digest := digest crypto log start stop prevHash
  sealed crypto settings.signingKey
    { windowStart := start, windowEnd := stop, rowCount := digest.rowCount, hash := digest.hash,
      prevHash := prevHash, signature := none, keyId := none,
      retentionDays := settings.retentionDays, legalHold := settings.legalHold } instanceId

/-! ## The windows -/

/-- `MAX_WINDOWS_PER_RUN`. -/
def maxWindowsPerRun : ℕ := 1000

/-- `_window_end`: the next multiple of the window's length since the epoch. -/
def windowEnd (start window : ℤ) : ℤ := (start / window + 1) * window

/-- The start of the first window: the last multiple of the window's length up to the oldest row. -/
def firstStart (first window : ℤ) : ℤ := first - first % window

/-- The windows from `start` on that have passed their grace period at `now`, `n` of them at most. -/
def dueWindows (window grace now : ℤ) : ℕ → ℤ → List (ℤ × ℤ)
  | 0, _ => []
  | n + 1, start =>
    if windowEnd start window + grace > now then []
    else (start, windowEnd start window) :: dueWindows window grace now n (windowEnd start window)

/-- The newest checkpoint. -/
def newest (checkpoints : CheckpointTable) : Option AuditCheckpoint :=
  (sortBy AuditCheckpoint.windowStart checkpoints.rows).getLast?

/-- The oldest row. -/
def oldest (log : LogTable) : Option Instant := (log.rows.map AuditLog.occurredAt).min?

/-- Where sealing resumes, and the hash that the next checkpoint names: after the newest checkpoint, or at
the oldest row when there is none. Without rows there is nothing to seal. -/
def resumeAt (log : LogTable) (checkpoints : CheckpointTable) (now window : ℤ) :
    Except String (Option (Instant × Option String)) :=
  match newest checkpoints with
  | some last =>
    if last.windowEnd > now then
      .error ("the newest checkpoint ends at " ++ isoformat last.windowEnd ++ ", after now ("
        ++ isoformat now ++ "); sealing stops until it is investigated")
    else .ok (some (last.windowEnd, some last.hash))
  | none => .ok ((oldest log).map fun first => (firstStart first window, none))

/-! ## Retention -/

/-- `retention_horizon`: the end of the window less its retention, or nothing when that reaches before the
first `datetime`. -/
def retentionHorizon (c : AuditCheckpoint) : Option Instant :=
  if c.retentionDays ≥ (c.windowEnd - datetimeMin) / day then none
  else some (c.windowEnd - c.retentionDays * day)

/-! ## The grid of windows -/

section Grid

variable {start window : ℤ}

/-- A window ends after it starts. -/
theorem lt_windowEnd (hw : 0 < window) : start < windowEnd start window := by
  have h := Int.lt_ediv_add_one_mul_self start hw
  rwa [windowEnd]

/-- Windows end at multiples of their length. -/
theorem dvd_windowEnd : window ∣ windowEnd start window := Int.dvd_mul_left _ _

/-- The window ends at the first multiple after its start. -/
theorem windowEnd_le_of_dvd (hw : 0 < window) {t : ℤ} (hdvd : window ∣ t) (ht : start < t) :
    windowEnd start window ≤ t := by
  obtain ⟨k, rfl⟩ := hdvd
  have hk : start / window < k := Int.ediv_lt_of_lt_mul hw (by rwa [Int.mul_comm])
  rw [windowEnd, Int.mul_comm window k]
  exact Int.mul_le_mul_of_nonneg_right hk hw.le

/-- **A window does not reach beyond midnight**, when a day is a whole number of windows. -/
theorem windowEnd_le_midnight (hw : 0 < window) (hday : window ∣ day) :
    windowEnd start window ≤ (start / day + 1) * day := by
  refine windowEnd_le_of_dvd hw (hday.trans (Int.dvd_mul_left _ _)) ?_
  exact Int.lt_ediv_add_one_mul_self start (by decide)

/-- The first window starts at most one length before the oldest row. -/
theorem firstStart_le (hw : 0 < window) (first : ℤ) :
    firstStart first window ≤ first ∧ first < firstStart first window + window := by
  have h0 := Int.emod_nonneg first (Int.ne_of_gt hw)
  have h1 := Int.emod_lt_of_pos first hw
  rw [firstStart]
  omega

/-- The first window starts at the last multiple up to the oldest row. -/
theorem le_firstStart_of_dvd (hw : 0 < window) {t first : ℤ} (hdvd : window ∣ t) (ht : t ≤ first) :
    t ≤ firstStart first window := by
  obtain ⟨k, rfl⟩ := hdvd
  have hk : k ≤ first / window := (Int.le_ediv_iff_mul_le hw).mpr (by rwa [Int.mul_comm])
  have hmul := Int.mul_le_mul_of_nonneg_left hk hw.le
  have hdiv := Int.mul_ediv_add_emod first window
  rw [firstStart]
  omega

/-- The first window starts at a multiple of its length. -/
theorem dvd_firstStart (first : ℤ) : window ∣ firstStart first window :=
  Int.dvd_self_sub_emod

end Grid

/-! ## Two days, signed -/

/-- A row of the first day. -/
def firstRow : AuditLog := sampleRow "a" .null

/-- A row of the second day. -/
def secondRow : AuditLog :=
  { sampleRow "b" (.obj [("x", .int 1), ("y", .null)]) with occurredAt := day + 1000000 }

/-- The seed of a signing key in Base64, the bytes from 0 to 31. -/
def sampleSigningKey : String := "AAECAwQFBgcICQoLDA0ODxAREhMUFRYXGBkaGxwdHh8="

/-- The public half of that key. -/
def samplePublicKey : String := "A6EHv/POEL4dcN0Y50vAmWfk1jCbpQ1fHdyGZBJVMbg="

/-- The key id of that key. -/
def sampleKeyId : String := "56475aa75463474c"

/-- The first day as it is sealed and signed, to be kept for another day. -/
def firstWindow : AuditCheckpoint :=
  { windowStart := 0, windowEnd := day, rowCount := 1,
    hash := "400b3eb85f4ea90d1548da54ffbd82036c4c052f0b1e0ec22c0ab6d1dcce39a3", prevHash := none,
    signature := some "sNDY9i8lAwmI0Q+wYbpCOUNStdwqZQGMq6jv1DhpKfQwKxtb3isbWjaMqt/vB6/hNE4WTu0ix/vLRlYToXheBQ==",
    keyId := some sampleKeyId, retentionDays := 1, legalHold := false }

/-- The second day, which names the first. -/
def secondWindow : AuditCheckpoint :=
  { windowStart := day, windowEnd := 2 * day, rowCount := 1,
    hash := "eded67726b2e46c7c9b5d7a061a0fbeea4c1835493f125cd621d2ac13f8ca3a2",
    prevHash := some firstWindow.hash,
    signature := some "azye57xEfafXS8aegGyZVNaZmpuWi0YJkNv+n5VhBaYGF/tAjcHrQjhyWsfGVTJRkQ5uGRQLRdnvDc0dVkIDCQ==",
    keyId := some sampleKeyId, retentionDays := 1, legalHold := false }

/-- The hash of a text without characters. -/
def emptyHash : String := "e3b0c44298fc1c149afbf4c8996fb92427ae41e4649b934ca495991b7852b855"

/-- What was signed for the two days, with the signatures. -/
def sampleSignatures : List (List Char × String) :=
  [firstWindow, secondWindow].map fun c => (message c "i1", c.signature.getD "")

/-- SHA-256 on the texts of these days and on the empty one, and Ed25519 with their key on their messages. -/
def sampleCrypto : Crypto where
  sha256 text :=
    if text = digestStream [firstRow.fetched] none then firstWindow.hash
    else if text = digestStream [secondRow.fetched] (some firstWindow.hash) then secondWindow.hash
    else emptyHash
  sign key text :=
    if key = sampleSigningKey then
      ((sampleSignatures.find? fun signed => signed.1 = text).map (·.2)).getD ""
    else ""
  signerId _ := sampleKeyId
  isKey text := decide (text = samplePublicKey)
  keyId _ := sampleKeyId
  verify key signature text :=
    decide (key = samplePublicKey) && sampleSignatures.contains (text, signature)

/-- The hash of the sample, on any text. -/
theorem sha256_sample (text : List Char) : sampleCrypto.sha256 text =
    if text = digestStream [firstRow.fetched] none then firstWindow.hash
    else if text = digestStream [secondRow.fetched] (some firstWindow.hash) then secondWindow.hash
    else emptyHash := rfl

/-- The first day has its hash. -/
theorem sha256_firstRow :
    sampleCrypto.sha256 (digestStream [firstRow.fetched] none) = firstWindow.hash := by
  rw [sha256_sample, if_pos rfl]

/-- So has the second one, since the lines of the two rows differ in their ids. -/
theorem sha256_secondRow :
    sampleCrypto.sha256 (digestStream [secondRow.fetched] (some firstWindow.hash)) = secondWindow.hash := by
  have hid : (digestStream [secondRow.fetched] (some firstWindow.hash))[2]?
      ≠ (digestStream [firstRow.fetched] none)[2]? := by decide +kernel
  rw [sha256_sample, if_neg fun heq => hid (congrArg (·[2]?) heq), if_pos rfl]

/-- A window without rows has the hash of the empty text. -/
theorem sha256_nil : sampleCrypto.sha256 [] = emptyHash := by
  have hfirst : digestStream [firstRow.fetched] none ≠ [] := by decide +kernel
  have hsecond : digestStream [secondRow.fetched] (some firstWindow.hash) ≠ [] := by decide +kernel
  rw [sha256_sample, if_neg (Ne.symm hfirst), if_neg (Ne.symm hsecond)]

end Jasil.Audit
