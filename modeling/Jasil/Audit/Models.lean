import Jasil.Core.Timestamps
import Jasil.Relational.Table
import Jasil.Text.Json

/-! # The audit tables
The rows of `jasil_audit_log`, the append-only log, and of `jasil_audit_checkpoints`, which seal it window
by window. -/

namespace Jasil.Audit

/-- A row of `jasil_audit_log`: one audited action. Without `details` the value is `null`. -/
structure AuditLog where
  id : String
  occurredAt : Instant
  actionId : String
  category : String
  severity : String
  outcome : String
  actorType : String
  actorId : Option String
  credentialType : Option String
  credentialId : Option String
  onBehalfOfId : Option String
  targetType : Option String
  targetId : Option String
  targetOwnerId : Option String
  requestId : Option String
  eventId : Option String
  source : String
  ipAddress : Option String
  userAgent : Option String
  details : Json
  detailsVersion : ℤ
  instanceId : Option String
  appName : Option String
  appVersion : Option String

/-- The primary key. -/
def AuditLog.key (r : AuditLog) : String × Instant := (r.id, r.occurredAt)

/-- A row of `jasil_audit_checkpoints`: a sealed window, from its start on and before its end. Its primary
key is the start. -/
structure AuditCheckpoint where
  windowStart : Instant
  windowEnd : Instant
  rowCount : ℤ
  hash : String
  prevHash : Option String
  signature : Option String
  keyId : Option String
  retentionDays : ℤ
  legalHold : Bool
  deriving DecidableEq

/-- The rows of the log. -/
abbrev LogTable := Table AuditLog.key

/-- The checkpoints. -/
abbrev CheckpointTable := Table AuditCheckpoint.windowStart

end Jasil.Audit
