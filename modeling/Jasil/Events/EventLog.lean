import Jasil.Core.Limits
import Jasil.Core.Pruning
import Jasil.Jobs.Models

/-! # The event log
One row an event, written by whoever publishes, consumes or stages it. The key of a row is the id of its
event, which a producer may use again: the first row stays, and a transition finds it only for an event of its
type.

* **`EventLog`**: the row; **`recordPublished`**, **`recordQueued`**, **`markProcessing`**, **`markCompleted`**,
  **`markFailed`**: what is written.
* **`mem_mark`**: what a transition makes of a row. -/

namespace Jasil.Events

open Jobs (Event)

/-- `event_log.status`. -/
inductive LogStatus
  | published
  | queued
  | processing
  | completed
  | failed
  | deadLetter
  deriving DecidableEq

/-- A row of `jasil_event_log`. -/
structure EventLog where
  id : String
  eventType : String
  eventSource : String
  eventPayload : JsonObject
  eventMetadata : Option JsonObject
  status : LogStatus
  handlerName : Option String := none
  workerId : Option String := none
  errorMessage : Option String := none
  retryCount : ℤ
  processingTimeMs : Option ℤ := none
  createdAt : Instant
  processedAt : Option Instant := none
  completedAt : Option Instant := none

/-- `event_log`. -/
abbrev LogTable := Table EventLog.id

/-- `MAX_HANDLER_NAME_LENGTH`. -/
def maxHandlerNameLength : ℕ := 500

/-- `MAX_WORKER_ID_LENGTH`. -/
def maxWorkerIdLength : ℕ := 100

/-- The row that an event is recorded with. -/
def recorded (event : Event) (status : LogStatus) (now : Instant) : EventLog where
  id := event.eventId
  eventType := event.eventType
  eventSource := event.source
  eventPayload := event.payload
  eventMetadata := if event.metadata = [] then none else some event.metadata
  status := status
  retryCount := event.retryCount
  createdAt := now

/-- `record_published`: the row is inserted, unless its id is taken. -/
def recordPublished (log : LogTable) (event : Event) (now : Instant) : LogTable :=
  log.insert (recorded event .published now)

/-- `record_queued`: the row is inserted; an id that is taken is an error, which leaves the table as it is. -/
def recordQueued (log : LogTable) (event : Event) (now : Instant) : LogTable :=
  log.insert (recorded event .queued now)

/-- `_bus_row`. -/
def BusRow (event : Event) (row : EventLog) : Prop :=
  row.id = event.eventId ∧ row.eventType = event.eventType ∧ row.status ≠ .queued

instance (event : Event) : DecidablePred (BusRow event) := fun _ => inferInstanceAs (Decidable (_ ∧ _))

/-- What a transition sets; the rest of the row stays. -/
structure Marking where
  status : LogStatus
  handlerName : Option (Option String) := none
  workerId : Option (Option String) := none
  errorMessage : Option (Option String) := none
  processingTimeMs : Option (Option ℤ) := none
  processedAt : Option (Option Instant) := none
  completedAt : Option (Option Instant) := none

/-- The row with what a transition sets. -/
def Marking.apply (m : Marking) (row : EventLog) : EventLog :=
  { row with
    status := m.status
    handlerName := m.handlerName.getD row.handlerName
    workerId := m.workerId.getD row.workerId
    errorMessage := m.errorMessage.getD row.errorMessage
    processingTimeMs := m.processingTimeMs.getD row.processingTimeMs
    processedAt := m.processedAt.getD row.processedAt
    completedAt := m.completedAt.getD row.completedAt }

/-- A transition of the row of an event. -/
def mark (log : LogTable) (event : Event) (m : Marking) : LogTable :=
  log.update (BusRow event) m.apply fun _ => rfl

/-- `mark_processing`. -/
def markProcessing (log : LogTable) (event : Event) (workerId : String) (now : Instant) : LogTable :=
  mark log event
    { status := .processing, workerId := some (fitLength (some workerId) maxWorkerIdLength),
      processedAt := some now }

/-- `mark_completed`. -/
def markCompleted (log : LogTable) (event : Event) (handlerName : Option String) (processingTimeMs : ℤ)
    (now : Instant) : LogTable :=
  mark log event
    { status := .completed, handlerName := some (fitLength handlerName maxHandlerNameLength),
      processingTimeMs := some processingTimeMs, completedAt := some now }

/-- `mark_failed`. -/
def markFailed (log : LogTable) (event : Event) (handlerName : Option String) (errorMessage : String)
    (processingTimeMs : ℤ) (now : Instant) : LogTable :=
  mark log event
    { status := .failed, handlerName := some (fitLength handlerName maxHandlerNameLength),
      errorMessage := some (fitLength (some errorMessage) maxStoredErrorLength),
      processingTimeMs := some processingTimeMs, completedAt := some now }

/-- One batch of `delete_events_before`. -/
def deleteEventsBatch (log : LogTable) (page : List String) : LogTable := log.deletePage EventLog.id page

section Rows

variable {log : LogTable} {event : Event} {m : Marking} {row : EventLog}

/-- The columns that say which event a row is about. -/
structure EventLog.SameEvent (row row' : EventLog) : Prop where
  id : row'.id = row.id
  eventType : row'.eventType = row.eventType
  eventSource : row'.eventSource = row.eventSource
  eventPayload : row'.eventPayload = row.eventPayload
  eventMetadata : row'.eventMetadata = row.eventMetadata
  retryCount : row'.retryCount = row.retryCount
  createdAt : row'.createdAt = row.createdAt

/-- A row is of the event it is of. -/
@[simp] theorem EventLog.SameEvent.refl (row : EventLog) : row.SameEvent row :=
    ⟨rfl, rfl, rfl, rfl, rfl, rfl, rfl⟩

/-- A marking leaves the event of a row. -/
theorem sameEvent_apply (m : Marking) (row : EventLog) : row.SameEvent (m.apply row) :=
  ⟨rfl, rfl, rfl, rfl, rfl, rfl, rfl⟩

/-- A marking sets the status. -/
@[simp] theorem status_apply (m : Marking) (row : EventLog) : (m.apply row).status = m.status := rfl

/-- A row of the table after a transition. -/
theorem mem_mark (h : row ∈ (mark log event m).rows) :
    row ∈ log.rows ∨ ∃ row₀ ∈ log.rows, BusRow event row₀ ∧ row = m.apply row₀ := by
  obtain ⟨row₀, hrow₀, rfl⟩ := Table.mem_update.mp h
  by_cases hbus : BusRow event row₀
  · right
    rw [if_pos hbus]
    exact ⟨row₀, hrow₀, hbus, rfl⟩
  · left
    rwa [if_neg hbus]

/-- A row of the table after an event was recorded. -/
theorem mem_insert_recorded {status : LogStatus} {now : Instant}
    (h : row ∈ (log.insert (recorded event status now)).rows) :
    row ∈ log.rows ∨ row = recorded event status now := by
  cases hget : log.get event.eventId with
  | none =>
    rw [Table.rows_insert_of_new hget] at h
    simpa using h
  | some row₀ =>
    rw [Table.insert_of_taken hget] at h
    exact .inl h

end Rows

end Jasil.Events
