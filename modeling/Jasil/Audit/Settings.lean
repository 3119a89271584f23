import Jasil.Core.Timestamps
import Jasil.Text.Base64

/-! # The settings of the audit trail
`AuditSettings` and the checks its construction makes: **`postInit`** refuses what the rest could not
honour, and **`Settings`** are the settings it accepts. -/

namespace Jasil.Audit

/-- A minute and a day, in microseconds. -/
def minute : ℤ := 60000000

/-- One day. -/
def day : ℤ := 86400000000

/-- `MAX_AUDIT_RETENTION_DAYS`. -/
def maxAuditRetentionDays : ℤ := 36500

/-- `MAX_PARTITION_DAYS_AHEAD`. -/
def maxPartitionDaysAhead : ℤ := 366

/-- `MAX_AUDIT_APP_NAME_LENGTH`. -/
def maxAuditAppNameLength : ℕ := 100

/-- `MAX_AUDIT_APP_VERSION_LENGTH`. -/
def maxAuditAppVersionLength : ℕ := 50

/-- The audit settings, as they are given. -/
structure AuditSettings where
  retentionDays : ℤ := 90
  retentionFloorDays : ℤ := 30
  legalHold : Bool := false
  partitionDaysAhead : ℤ := 7
  checkpointWindowMinutes : ℤ := 15
  checkpointGraceMinutes : ℤ := 5
  signingKey : Option String := none
  maxDetailsBytes : ℤ := 4096
  appName : Option String := none
  appVersion : Option String := none

/-- A value below the minimum is refused. -/
def checkMinimum (name : String) (value minimum : ℤ) : Except String Unit :=
  if value < minimum then
    .error ("audit." ++ name ++ " must be at least " ++ toString minimum ++ ", not " ++ toString value)
  else .ok ()

/-- A value above the maximum is refused. -/
def checkMaximum (name : String) (value maximum : ℤ) : Except String Unit :=
  if maximum < value then
    .error ("audit." ++ name ++ " must be at most " ++ toString maximum ++ ", not " ++ toString value)
  else .ok ()

/-- The window length divides a day, so that no window straddles two daily partitions. -/
def checkWindow (minutes : ℤ) : Except String Unit :=
  if 1440 % minutes ≠ 0 then
    .error ("audit.checkpoint_window_minutes (" ++ toString minutes ++ ") must divide a day (1440) evenly")
  else .ok ()

/-- A text is optional, and has a longest length. -/
def checkApp (name : String) (value : Option String) (limit : ℕ) : Except String Unit :=
  match value with
  | none => .ok ()
  | some value =>
    if limit < value.length then
      .error ("audit." ++ name ++ " is " ++ toString value.length ++ " characters; the limit is "
        ++ toString limit)
    else .ok ()

/-- The signing key is 32 bytes in Base64 with the standard signs. -/
def checkSigningKey : Option String → Except String Unit
  | none => .ok ()
  | some key =>
    if (Base64.decodeStandard key.toList).map List.length = some 32 then .ok ()
    else .error "audit.signing_key must be the base64 of a 32-byte Ed25519 private key"

/-- A retention below the floor would be refused at every prune. -/
def checkFloor (retentionDays floor : ℤ) : Except String Unit :=
  if 0 < retentionDays ∧ retentionDays < floor then
    .error ("audit.retention_days (" ++ toString retentionDays
      ++ ") must be at least audit.retention_floor_days (" ++ toString floor
      ++ "), or <= 0 to keep every row")
  else .ok ()

/-- `__post_init__`. -/
def AuditSettings.postInit (s : AuditSettings) : Except String Unit := do
  checkMinimum "retention_floor_days" s.retentionFloorDays 1
  checkMinimum "partition_days_ahead" s.partitionDaysAhead 1
  checkMinimum "checkpoint_window_minutes" s.checkpointWindowMinutes 1
  checkMinimum "checkpoint_grace_minutes" s.checkpointGraceMinutes 0
  checkMinimum "max_details_bytes" s.maxDetailsBytes 1
  checkMaximum "retention_days" s.retentionDays maxAuditRetentionDays
  checkMaximum "retention_floor_days" s.retentionFloorDays maxAuditRetentionDays
  checkMaximum "partition_days_ahead" s.partitionDaysAhead maxPartitionDaysAhead
  checkWindow s.checkpointWindowMinutes
  checkApp "app_name" s.appName maxAuditAppNameLength
  checkApp "app_version" s.appVersion maxAuditAppVersionLength
  checkSigningKey s.signingKey
  checkFloor s.retentionDays s.retentionFloorDays

instance (s : AuditSettings) : Decidable (s.postInit = .ok ()) :=
  match s.postInit with
  | .ok () => isTrue rfl
  | .error _ => isFalse nofun

/-- The settings that are accepted. -/
abbrev Settings := { s : AuditSettings // s.postInit = .ok () }

/-- The settings as they are when a host sets none. -/
def Settings.default : Settings := ⟨{}, rfl⟩

/-- The length of a window, in microseconds. -/
def AuditSettings.window (s : AuditSettings) : ℤ := s.checkpointWindowMinutes * minute

/-- How long past its end a window waits, in microseconds. -/
def AuditSettings.grace (s : AuditSettings) : ℤ := s.checkpointGraceMinutes * minute

/-- A sequence of checks passes when each of them does. -/
theorem ok_of_bind {check : Except String Unit} {rest : Unit → Except String Unit}
    (h : (check >>= rest) = .ok ()) : check = .ok () ∧ rest () = .ok () := by
  cases check with
  | ok u => exact ⟨rfl, h⟩
  | error e => exact nomatch h

/-- A minimum is passed by what is at least that. -/
theorem checkMinimum_ok {name : String} {value minimum : ℤ} :
    checkMinimum name value minimum = .ok () ↔ minimum ≤ value := by
  unfold checkMinimum
  split
  · simpa using ‹value < minimum›
  · simpa using ‹¬value < minimum›

/-- A window is passed when it divides the day. -/
theorem checkWindow_ok {minutes : ℤ} : checkWindow minutes = .ok () ↔ minutes ∣ 1440 := by
  unfold checkWindow
  rw [Int.dvd_iff_emod_eq_zero]
  split
  · simpa using ‹1440 % minutes ≠ 0›
  · simpa using ‹¬1440 % minutes ≠ 0›

/-- **What the checks leave**: a window of a whole number of minutes that divides a day, a grace period that
is not negative. -/
theorem Settings.bounds (s : Settings) :
    1 ≤ s.1.checkpointWindowMinutes ∧ s.1.checkpointWindowMinutes ∣ 1440
      ∧ 0 ≤ s.1.checkpointGraceMinutes := by
  have h := s.2
  rw [AuditSettings.postInit] at h
  obtain ⟨-, h⟩ := ok_of_bind h
  obtain ⟨-, h⟩ := ok_of_bind h
  obtain ⟨hwindow, h⟩ := ok_of_bind h
  obtain ⟨hgrace, h⟩ := ok_of_bind h
  obtain ⟨-, h⟩ := ok_of_bind h
  obtain ⟨-, h⟩ := ok_of_bind h
  obtain ⟨-, h⟩ := ok_of_bind h
  obtain ⟨-, h⟩ := ok_of_bind h
  obtain ⟨hdvd, -⟩ := ok_of_bind h
  exact ⟨checkMinimum_ok.mp hwindow, checkWindow_ok.mp hdvd, checkMinimum_ok.mp hgrace⟩

/-- A day is a whole number of windows. -/
theorem Settings.window_dvd_day (s : Settings) : 0 < s.1.window ∧ s.1.window ∣ day := by
  obtain ⟨hpos, hdvd, -⟩ := s.bounds
  have hminute : day = 1440 * minute := by decide
  refine ⟨Int.mul_pos (by omega) (by decide), ?_⟩
  rw [hminute, AuditSettings.window]
  exact Int.mul_dvd_mul_right minute hdvd

/-- Settings that were checked have no negative grace. -/
theorem Settings.grace_nonneg (s : Settings) : 0 ≤ s.1.grace :=
  Int.mul_nonneg s.bounds.2.2 (by decide)

/-- A window starts on a whole minute. -/
theorem Settings.minute_dvd_window (s : Settings) : minute ∣ s.1.window := Int.dvd_mul_left _ _

end Jasil.Audit
