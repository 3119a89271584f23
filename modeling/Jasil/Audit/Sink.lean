import Jasil.Audit.Checkpoints
import Jasil.Text.Base64

/-! # The external sink
A write-once store of objects by name, and the copy of each checkpoint in it.

* **`writeOnce`**: an object is never replaced; the same content again is no error.
* **`sinkPayload`**, **`recordedRetention`**: the copy of a checkpoint, and the retention it records.
* **`copyToSink`**: a window that is in the sink already is sealed again under the retention its copy
  records. -/

namespace Jasil.Audit

/-! ## The store -/

/-- The objects of a sink, by name. -/
abbrev Sink := Table (Prod.fst : String × List UInt8 → String)

/-- `AuditSink.read`. -/
def Sink.read (sink : Sink) (name : String) : Option (List UInt8) := (sink.get name).map (·.2)

/-- What a sink raises. -/
inductive SinkError
  | invalidName (name : String)
  | conflict (message : String)
  deriving DecidableEq

/-- A character of an object's name after its first, which is a letter or a digit. -/
def NameChar (c : Char) : Prop := c.isAlphanum = true ∨ c = '.' ∨ c = '_' ∨ c = '-'

instance (c : Char) : Decidable (NameChar c) := inferInstanceAs (Decidable (_ ∨ _))

/-- `_NAME.fullmatch(name)`. -/
def ValidName (name : String) : Prop :=
  (name.toList.head?.any Char.isAlphanum) = true ∧ ∀ c ∈ name.toList, NameChar c

instance (name : String) : Decidable (ValidName name) := @instDecidableAnd _ _ _ (List.decidableBAll _ _)

/-- `AuditSink.write_once`. -/
def writeOnce (sink : Sink) (name : String) (content : List UInt8) : Except SinkError Sink :=
  if ¬ValidName name then .error (.invalidName name)
  else
    match sink.read name with
    | none => .ok (sink.insert (name, content))
    | some stored =>
      if stored = content then .ok sink
      else .error (.conflict (name ++ " already exists with different content"))

/-! ## The copy of a checkpoint -/

/-- `strftime("%Y%m%dT%H%M%SZ")`. -/
def stamp (t : Instant) : String :=
  let (year, month, dayOfMonth) := civilFromDays (t / 86400000000)
  let inDay := t % 86400000000
  zeroPadded 4 year ++ zeroPadded 2 month ++ zeroPadded 2 dayOfMonth ++ "T"
    ++ zeroPadded 2 (inDay / 3600000000) ++ zeroPadded 2 (inDay / 60000000 % 60)
    ++ zeroPadded 2 (inDay / 1000000 % 60) ++ "Z"

/-- `_sink_name`. The year has four digits; `strftime` on Linux does not pad the years before 1000. -/
def sinkName (start : Instant) (instanceId : String) : String :=
  "checkpoint-" ++ instanceId ++ "-" ++ stamp start ++ ".json"

/-- The document of a checkpoint. -/
def sinkFields (c : AuditCheckpoint) (instanceId : String) : JsonObject :=
  [("v", .int 1), ("instance_id", .str instanceId),
    ("window_start", .str (isoformatMicroseconds c.windowStart)),
    ("window_end", .str (isoformatMicroseconds c.windowEnd)), ("row_count", .int c.rowCount),
    ("hash", .str c.hash), ("prev_hash", ofText c.prevHash), ("signature", ofText c.signature),
    ("key_id", ofText c.keyId), ("retention_days", .int c.retentionDays),
    ("legal_hold", .bool c.legalHold)]

/-- `_sink_payload`. -/
def sinkPayload (c : AuditCheckpoint) (instanceId : String) : List UInt8 :=
  utf8 (Json.dumps (.obj (sinkFields c instanceId)))

/-- The value of a field, if there is one. -/
def field (fields : JsonObject) (name : String) : Option Json := (fields.find? (·.1 = name)).map (·.2)

/-- The `retention_days` and `legal_hold` of a document that has both, of their own types. -/
def retentionFields : Json → Option (ℤ × Bool)
  | .obj fields =>
    match field fields "retention_days", field fields "legal_hold" with
    | some (.int days), some (.bool hold) => some (days, hold)
    | _, _ => none
  | _ => none

/-- `_recorded_retention`. -/
def recordedRetention (document : Option (List UInt8)) : Option (ℤ × Bool) := do
  let text ← ofUtf8 (← document)
  retentionFields (← Json.loads text)

/-- The window of `c`, sealed under another retention. -/
def resealed (crypto : Crypto) (signingKey : Option String) (instanceId : String) (c : AuditCheckpoint)
    (recorded : ℤ × Bool) : AuditCheckpoint :=
  sealed crypto signingKey { c with retentionDays := recorded.1, legalHold := recorded.2 } instanceId

/-- `_copy_to_sink`: the sink with the copy, and the checkpoint to store. -/
def copyToSink (crypto : Crypto) (signingKey : Option String) (instanceId : String) (sink : Sink)
    (c : AuditCheckpoint) : Except SinkError (Sink × AuditCheckpoint) :=
  let name := sinkName c.windowStart instanceId
  match writeOnce sink name (sinkPayload c instanceId) with
  | .ok sink => .ok (sink, c)
  | .error (.invalidName name) => .error (.invalidName name)
  | .error (.conflict message) =>
    match recordedRetention (sink.read name) with
    | none => .error (.conflict message)
    | some recorded =>
      let resealed := resealed crypto signingKey instanceId c recorded
      if some (sinkPayload resealed instanceId) ≠ sink.read name then .error (.conflict message)
      else .ok (sink, resealed)

end Jasil.Audit
