import Jasil.Jobs.Crud

/-! # Dead-letter callbacks
The writes by which a process claims the `on_dead_letter` callback of a dead-lettered job and records
how it went. A delivery is named by the job, the delivery count the claim left (`deliveryAttempt`)
and the instant the job was dead-lettered (`deadAt`), and `updateDeadLetter` writes only while the
row still shows all three. -/

namespace Jasil.Jobs

/-- The publish timestamp a job's envelope carries. -/
def envelopeTimestamp (row : ProcessingJob) : String :=
  match row.eventTimestamp with
  | none => isoformat row.createdAt
  | some timestamp => if timestamp = "" then isoformat row.createdAt else timestamp

/-- Rebuild the envelope a job's handler sees from its row. -/
def eventFromRow (row : ProcessingJob) : Event where
  eventId := row.eventId
  eventType := row.eventType
  source := row.source
  timestamp := envelopeTimestamp row
  payload := row.payload
  metadata := row.jobMetadata.getD []
  retryCount := row.spent
  schemaVersion := row.schemaVersion
  maxAttempts := some row.maxAttempts
  deferralCount := row.deferrals
  continuationCount := row.continuations

/-- A claimed dead letter. -/
structure DeadLetterJob where
  id : JobId
  subscriberId : SubscriberId
  eventType : String
  event : Event
  lastError : Option String
  /-- The delivery count this claim left on the row. -/
  deliveryAttempt : ℤ
  /-- When the job became a dead letter. -/
  deadAt : Option Instant

/-- The arguments of `claim_dead_letter_callbacks`. -/
structure CallbackRequest where
  subscriberIds : List SubscriberId
  now : Instant
  leaseSeconds : ℚ
  jobIds : Option (List JobId) := none
  limit : ℕ := 100
  maxDeliveries : Option ℤ := none
  deadAfter : Option Instant := none

/-- `due`: a dead letter whose callback is owed and held off by nobody. -/
def CallbackDue (now : Instant) (j : ProcessingJob) : Prop :=
  j.status = .deadLetter ∧ j.deadLetterNotifiedAt = none ∧
    ∀ t ∈ j.deadLetterNotifyAfter, t ≤ now

instance (now : Instant) : DecidablePred (CallbackDue now) :=
  fun _ => inferInstanceAs (Decidable (_ ∧ _ ∧ ∀ _ ∈ _, _))

/-- The `WHERE` clause of the selection. -/
def CallbackRequest.Selects (r : CallbackRequest) (j : ProcessingJob) : Prop :=
  CallbackDue r.now j ∧ j.subscriberId ∈ r.subscriberIds ∧
    (∀ n ∈ r.maxDeliveries, j.deadLetterAttempts < n) ∧
    (∀ t ∈ r.deadAfter, t ≤ j.updatedAt) ∧
    ∀ ids ∈ r.jobIds, j.id ∈ ids

instance (r : CallbackRequest) : DecidablePred r.Selects :=
  fun _ => inferInstanceAs (Decidable (_ ∧ _ ∧ _ ∧ _ ∧ _))

/-- `SET` of one callback claim. -/
def ProcessingJob.claimCallback (leaseUntil : Instant) (deliveries : ℤ) (j : ProcessingJob) :
    ProcessingJob :=
  { j with deadLetterNotifyAfter := some leaseUntil, deadLetterAttempts := deliveries }

/-- A claim of a callback leaves the id. -/
@[simp] theorem ProcessingJob.id_claimCallback (leaseUntil : Instant) (deliveries : ℤ) (j : ProcessingJob) :
    (j.claimCallback leaseUntil deliveries).id = j.id := rfl

/-- The compare-and-set of one callback claim, against the row as it was selected. -/
def CallbackClaimable (row : ProcessingJob) (now : Instant) (j : ProcessingJob) : Prop :=
  j.id = row.id ∧ j.deadLetterAttempts = row.deadLetterAttempts ∧ CallbackDue now j

instance (row : ProcessingJob) (now : Instant) : DecidablePred (CallbackClaimable row now) :=
  fun _ => inferInstanceAs (Decidable (_ ∧ _ ∧ _))

/-- The snapshot handed to the process that claimed the callback of `row`. -/
def claimedCallback (row : ProcessingJob) : DeadLetterJob where
  id := row.id
  subscriberId := row.subscriberId
  eventType := row.eventType
  event := eventFromRow row
  lastError := row.lastError
  deliveryAttempt := row.deadLetterAttempts + 1
  deadAt := row.completedAt

/-- Claim the callback of one selected row. -/
def claimCallbackRow (r : CallbackRequest) (row : ProcessingJob)
    (acc : List DeadLetterJob × Table ProcessingJob.id) :
    List DeadLetterJob × Table ProcessingJob.id :=
  let (jobs, table) := acc
  let claimed := table.rowcount (CallbackClaimable row r.now)
  let written := table.update (CallbackClaimable row r.now)
    (ProcessingJob.claimCallback (r.now + timedelta r.leaseSeconds) (row.deadLetterAttempts + 1))
    (ProcessingJob.id_claimCallback _ _)
  (if claimed = 1 then jobs ++ [claimedCallback row] else jobs, written)

/-- `ORDER BY updated_at, id`. -/
def callbackKey (j : ProcessingJob) : Instant ×ₗ JobId := toLex (j.updatedAt, j.id)

/-- The selected rows, oldest first. -/
def callbackRows (db : Db) (r : CallbackRequest) : List ProcessingJob :=
  ((db.jobs.select r.Selects).insertionSort fun a b => callbackKey a ≤ callbackKey b).take r.limit

/-- Claim the dead-lettered jobs whose subscriber's callback is owed and due. -/
def claimDeadLetterCallbacks (db : Db) (r : CallbackRequest) : List DeadLetterJob × Db :=
  if r.subscriberIds.isEmpty then ([], db)
  else
    let (jobs, table) :=
      (callbackRows db r).foldl (fun acc row => claimCallbackRow r row acc) ([], db.jobs)
    (jobs, { db with jobs := table })

/-- `claim` is still the live claim of the same dead letter. -/
def LiveDelivery (claim : DeadLetterJob) (j : ProcessingJob) : Prop :=
  j.id = claim.id ∧ j.status = .deadLetter ∧ j.deadLetterNotifiedAt = none ∧
    j.deadLetterAttempts = claim.deliveryAttempt ∧ j.completedAt = claim.deadAt

instance (claim : DeadLetterJob) : DecidablePred (LiveDelivery claim) :=
  fun _ => inferInstanceAs (Decidable (_ ∧ _ ∧ _ ∧ _ ∧ _))

/-- Write to a dead letter only while `claim` is still its live claim; returns whether it was. -/
def updateDeadLetter (db : Db) (claim : DeadLetterJob) (row : RowWrite) : Bool × Db :=
  (db.jobs.rowcount (LiveDelivery claim) == 1,
    { db with jobs := db.jobs.update (LiveDelivery claim) row.set row.keepsId })

/-- `SET` of a delivered notification. -/
def ProcessingJob.notified (now : Instant) (j : ProcessingJob) : ProcessingJob :=
  { j with
    deadLetterNotifiedAt := some now
    deadLetterNotifyAfter := none
    deadLetterCallbackError := none }

/-- A notification leaves the id. -/
@[simp] theorem ProcessingJob.id_notified (now : Instant) (j : ProcessingJob) :
    (j.notified now).id = j.id := rfl

/-- Record that the callback succeeded for the delivery `claim`. -/
def markDeadLetterNotified (db : Db) (claim : DeadLetterJob) (now : Instant) : Bool × Db :=
  updateDeadLetter db claim ⟨ProcessingJob.notified now, ProcessingJob.id_notified now⟩

/-- `SET` of a failed delivery. -/
def ProcessingJob.deferCallback (retryAt : Instant) (error : Option String) (j : ProcessingJob) :
    ProcessingJob :=
  { j with deadLetterNotifyAfter := some retryAt, deadLetterCallbackError := error }

/-- Putting a callback off leaves the id. -/
@[simp] theorem ProcessingJob.id_deferCallback (retryAt : Instant) (error : Option String) (j : ProcessingJob) :
    (j.deferCallback retryAt error).id = j.id := rfl

/-- Schedule a failed callback's next delivery and keep the failure. -/
def deferDeadLetterCallback (db : Db) (claim : DeadLetterJob) (retryAt : Instant)
    (error : String) : Bool × Db :=
  updateDeadLetter db claim
    ⟨ProcessingJob.deferCallback retryAt (storedError error), ProcessingJob.id_deferCallback _ _⟩

/-- `SET` of a delivery that was claimed and never run. -/
def ProcessingJob.releaseCallback (deliveryAttempt : ℤ) (j : ProcessingJob) : ProcessingJob :=
  { j with deadLetterNotifyAfter := none, deadLetterAttempts := deliveryAttempt - 1 }

/-- Giving a callback back leaves the id. -/
@[simp] theorem ProcessingJob.id_releaseCallback (deliveryAttempt : ℤ) (j : ProcessingJob) :
    (j.releaseCallback deliveryAttempt).id = j.id := rfl

/-- Undo a claim whose callback was never run, so the delivery is not counted. -/
def releaseDeadLetterClaim (db : Db) (claim : DeadLetterJob) : Bool × Db :=
  updateDeadLetter db claim
    ⟨ProcessingJob.releaseCallback claim.deliveryAttempt, ProcessingJob.id_releaseCallback _⟩

end Jasil.Jobs
