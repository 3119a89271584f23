import Mathlib.Logic.Function.Basic
import Jasil.Jobs.Routing

/-! # The outbox and its relay
A published event is staged as a row of `jasil_event_outbox`, once for each event id. A relay pass reads a batch
of rows that are not relayed, inserts one job for each durable subscriber of each, and stamps them.

* **`addToOutbox`**: stages an event; an event id that is there must be of the same event.
* **`RelayTx`**: the open transaction of a pass, with what it has written and nobody sees.
* **`Relaying`**: the committed tables and the passes under way. -/

namespace Jasil

/-! ## Equality of payloads -/

namespace Json

/-- The number a value is: `True` is 1. -/
def number : Json → Option ℚ
  | .bool b => some (if b then 1 else 0)
  | .int i => some i
  | .float q => some q
  | _ => none

mutual

/-- `==`: numbers by what they denote, objects whatever the order of their keys. -/
def eq : Json → Json → Bool
  | .null, .null => true
  | .str s, .str s' => s == s'
  | .arr xs, .arr ys => eqItems xs ys
  | .obj kvs, .obj kvs' => kvs.length == kvs'.length && eqFields kvs kvs'
  | v, w =>
    match v.number, w.number with
    | some p, some q => p == q
    | _, _ => false

/-- Lists are equal item by item. -/
def eqItems : List Json → List Json → Bool
  | [], [] => true
  | x :: xs, y :: ys => eq x y && eqItems xs ys
  | _, _ => false

/-- Every field of the first object has its equal in the second. -/
def eqFields : List (String × Json) → JsonObject → Bool
  | [], _ => true
  | (k, v) :: kvs, kvs' =>
    (match Jobs.dictGet kvs' k with
      | some w => eq v w
      | none => false) && eqFields kvs kvs'

end

end Json

namespace Jobs

/-! ## Staging -/

/-- What `_check_same_event` raises. -/
inductive StagingError
  /-- Event id … is already in the outbox with a different … -/
  | different (eventId : String) (field : String)
  deriving DecidableEq

/-- `_check_same_event`. -/
def checkSameEvent (event : Event) (stored : EventOutbox) : Except StagingError Unit :=
  if stored.eventType ≠ event.eventType then .error (.different event.eventId "event_type")
  else if ¬ Json.eq (.obj stored.payload) (.obj event.payload) then
    .error (.different event.eventId "payload")
  else .ok ()

/-- The row staged for an event. -/
def newOutboxRow (event : Event) (now : Instant) (outboxId : OutboxId) : EventOutbox where
  id := outboxId
  eventId := event.eventId
  eventType := event.eventType
  source := event.source
  timestamp := event.timestamp
  payload := event.payload
  schemaVersion := event.schemaVersion
  eventMetadata := if event.metadata.isEmpty then none else some event.metadata
  createdAt := now

/-- `add_to_outbox`: stage an event, unless its id is staged. -/
def addToOutbox (outbox : Table EventOutbox.id) (event : Event) (now : Instant) (outboxId : OutboxId) :
    Except StagingError (Option OutboxId × Table EventOutbox.id) :=
  match outbox.rows.find? (·.eventId = event.eventId) with
  | some stored => do
    checkSameEvent event stored
    return (none, outbox)
  | none => .ok (some outboxId, outbox.insert (newOutboxRow event now outboxId))

/-! ## Relaying -/

/-- `list_unrelayed`: the oldest rows that are not relayed, without those that another relayer has locked. -/
def listUnrelayed (outbox : Table EventOutbox.id) (limit : ℕ) (locked : List OutboxId) :
    List EventOutbox :=
  (sortBy EventOutbox.createdAt
    (outbox.select fun row => row.relayedAt = none ∧ row.id ∉ locked)).take limit

/-- `mark_relayed`. -/
def markRelayed (outbox : Table EventOutbox.id) (outboxId : OutboxId) (now : Instant) :
    Table EventOutbox.id :=
  outbox.update (·.id = outboxId) (fun row => { row with relayedAt := some now }) fun _ => rfl

/-- `_event_from`. -/
def eventFrom (row : EventOutbox) : Event where
  eventId := row.eventId
  eventType := row.eventType
  source := row.source
  timestamp := row.timestamp
  payload := row.payload
  metadata := row.eventMetadata.getD []
  schemaVersion := row.schemaVersion

/-- What a relay pass raises. -/
inductive RelayError
  /-- no queue registered for subscriber_id … -/
  | noQueue (subscriberId : SubscriberId)
  | invalid (message : String)
  deriving DecidableEq

/-- The arguments of `relay_outbox_once`, and the ids the pass mints for its jobs. -/
structure RelayPass where
  registry : JobHandlerRegistry
  maxAttempts : ℤ
  batchSize : ℕ
  now : Instant
  mint : OutboxId → SubscriberId → JobId

/-- What a pass executes after its read. -/
inductive RelayStatement
  /-- The job of a subscriber. -/
  | insert (row : EventOutbox) (subscriberId : SubscriberId)
  | mark (outboxId : OutboxId)

/-- The statements of `relay_outbox_once` for the rows it read: each row gets its jobs, and then its stamp. -/
def RelayPass.statements (pass : RelayPass) (rows : List EventOutbox) : List RelayStatement :=
  rows.flatMap fun row =>
    (pass.registry.subscribersFor row.eventType).map (.insert row) ++ [.mark row.id]

/-- The open transaction of a pass. -/
structure RelayTx where
  pass : RelayPass
  todo : List RelayStatement
  /-- Its jobs, which nobody else sees. -/
  jobs : Table ProcessingJob.id := Table.empty
  /-- The rows it has stamped, which nobody else sees. -/
  marks : List OutboxId := []

namespace RelayTx

/-- `insert_job` in the transaction, which sees the committed jobs and its own. -/
def insert (db : Db) (tx : RelayTx) (row : EventOutbox) (subscriberId : SubscriberId) :
    Except RelayError RelayTx :=
  match tx.pass.registry.queueFor subscriberId with
  | none => .error (.noQueue subscriberId)
  | some queue =>
    match insertJob ⟨tx.jobs, Table.empty⟩ (eventFrom row) subscriberId queue tx.pass.maxAttempts
        tx.pass.now none (tx.pass.mint row.id subscriberId) with
    | .error message => .error (.invalid message)
    | .ok (_, own) =>
      if db.jobs.rows.any fun j => j.eventId = row.eventId ∧ j.subscriberId = subscriberId then .ok tx
      else .ok { tx with jobs := own.jobs }

/-- The transaction has a job for the work that nobody else sees. -/
def Holds (tx : RelayTx) (eventId : String) (subscriberId : SubscriberId) : Prop :=
  ∃ j ∈ tx.jobs.rows, j.eventId = eventId ∧ j.subscriberId = subscriberId

/-- What a commit makes of the tables. -/
def commit (tx : RelayTx) (db : Db) (outbox : Table EventOutbox.id) : Db × Table EventOutbox.id :=
  ({ db with jobs := db.jobs.insertAll tx.jobs.rows },
    tx.marks.foldl (fun outbox id => markRelayed outbox id tx.pass.now) outbox)

end RelayTx

/-! ## Passes under way -/

/-- The committed tables, with the relay transactions that are open. -/
structure Relaying where
  db : Db
  outbox : Table EventOutbox.id
  txs : ℕ → Option RelayTx

/-- What can happen next. -/
inductive RelayStep
  /-- A call of the job operations. -/
  | call (c : Call)
  | publish (event : Event) (now : Instant) (outboxId : OutboxId)
  /-- A pass begins with its read, passing over the rows that others have locked. -/
  | read (p : ℕ) (pass : RelayPass) (locked : List OutboxId)
  /-- The next statement of a pass. -/
  | next (p : ℕ)
  | commit (p : ℕ)
  /-- A pass fails or its process dies, and its transaction is rolled back. -/
  | fail (p : ℕ)

namespace Relaying

/-- No job, no event and no pass. -/
def init : Relaying := ⟨Db.empty, Table.empty, fun _ => none⟩

/-- The outbox after an event is staged. A call that raises leaves it as it was. -/
def publish (outbox : Table EventOutbox.id) (event : Event) (now : Instant) (outboxId : OutboxId) :
    Table EventOutbox.id :=
  match addToOutbox outbox event now outboxId with
  | .ok (_, outbox') => outbox'
  | .error _ => outbox

/-- An insert of the work waits: another open transaction has inserted it. -/
def Waits (s : Relaying) (p : ℕ) (eventId : String) (subscriberId : SubscriberId) : Prop :=
  ∃ q, q ≠ p ∧ ∃ tx ∈ s.txs q, tx.Holds eventId subscriberId

/-- Take one step. -/
def step (s : Relaying) : RelayStep → Option Relaying
  | .call c => some { s with db := c.run s.db }
  | .publish event now outboxId => some { s with outbox := publish s.outbox event now outboxId }
  | .read p pass locked =>
    match s.txs p with
    | some _ => none
    | none =>
      let rows := listUnrelayed s.outbox pass.batchSize locked
      some { s with txs := Function.update s.txs p (some { pass, todo := pass.statements rows }) }
  | .next p =>
    match s.txs p with
    | some tx =>
      match tx.todo with
      | .insert row subscriberId :: todo =>
        match tx.insert s.db row subscriberId with
        | .ok tx' => some { s with txs := Function.update s.txs p (some { tx' with todo }) }
        | .error _ => none
      | .mark id :: todo =>
        let tx' := { tx with todo, marks := tx.marks ++ [id] }
        some { s with txs := Function.update s.txs p (some tx') }
      | [] => none
    | none => none
  | .commit p =>
    match s.txs p with
    | some tx =>
      match tx.todo with
      | [] =>
        let (db, outbox) := tx.commit s.db s.outbox
        some { db, outbox, txs := Function.update s.txs p none }
      | _ :: _ => none
    | none => none
  | .fail p => some { s with txs := Function.update s.txs p none }

/-- **What a step does** to the tables and the open transactions. -/
inductive Moves (s : Relaying) : RelayStep → Relaying → Prop
  | call {c : Call} : s.Moves (.call c) { s with db := c.run s.db }
  | publish {event : Event} {now : Instant} {outboxId : OutboxId} :
    s.Moves (.publish event now outboxId) { s with outbox := publish s.outbox event now outboxId }
  | read {p : ℕ} {pass : RelayPass} {locked : List OutboxId} (hidle : s.txs p = none) :
    s.Moves (.read p pass locked) { s with
      txs := Function.update s.txs p
        (some { pass, todo := pass.statements (listUnrelayed s.outbox pass.batchSize locked) }) }
  | inserted {p : ℕ} {tx tx' : RelayTx} {row : EventOutbox} {subscriberId : SubscriberId}
      {todo : List RelayStatement} (htx : s.txs p = some tx)
      (htodo : tx.todo = .insert row subscriberId :: todo)
      (hinsert : tx.insert s.db row subscriberId = .ok tx') :
    s.Moves (.next p) { s with txs := Function.update s.txs p (some { tx' with todo }) }
  | marked {p : ℕ} {tx : RelayTx} {id : OutboxId} {todo : List RelayStatement} (htx : s.txs p = some tx)
      (htodo : tx.todo = .mark id :: todo) :
    s.Moves (.next p)
      { s with txs := Function.update s.txs p (some { tx with todo, marks := tx.marks ++ [id] }) }
  | committed {p : ℕ} {tx : RelayTx} (htx : s.txs p = some tx) (htodo : tx.todo = []) :
    s.Moves (.commit p)
      { db := (tx.commit s.db s.outbox).1
        outbox := (tx.commit s.db s.outbox).2
        txs := Function.update s.txs p none }
  /-- What the pass did is rolled back. -/
  | failed {p : ℕ} : s.Moves (.fail p) { s with txs := Function.update s.txs p none }

/-- Every step is one of these. -/
theorem moves_of_step {s s' : Relaying} {a : RelayStep} (hs : s.step a = some s') : s.Moves a s' := by
  cases a with
  | call c =>
    obtain rfl := Option.some.inj hs
    exact .call
  | publish event now outboxId =>
    obtain rfl := Option.some.inj hs
    exact .publish
  | read p pass locked =>
    simp only [step] at hs
    split at hs
    · cases hs
    · rename_i hidle
      obtain rfl := Option.some.inj hs
      exact .read hidle
  | next p =>
    simp only [step] at hs
    split at hs
    · rename_i tx htx
      split at hs
      · rename_i row subscriberId todo htodo
        split at hs
        · rename_i tx' hinsert
          obtain rfl := Option.some.inj hs
          exact .inserted htx htodo hinsert
        · cases hs
      · rename_i id todo htodo
        obtain rfl := Option.some.inj hs
        exact .marked htx htodo
      · cases hs
    · cases hs
  | commit p =>
    simp only [step] at hs
    split at hs
    · rename_i tx htx
      split at hs
      · rename_i htodo
        obtain rfl := Option.some.inj hs
        exact .committed htx htodo
      · cases hs
    · cases hs
  | fail p =>
    obtain rfl := Option.some.inj hs
    exact .failed

/-- **An insert that conflicts with an uncommitted row waits** for that transaction to end. -/
def Waiting (s : Relaying) : RelayStep → Prop
  | .next p => ∀ tx ∈ s.txs p, ∀ row subscriberId todo, tx.todo = .insert row subscriberId :: todo →
      ¬ s.Waits p row.eventId subscriberId
  | .call (.insert event subscriberId _ _ _ _ _) =>
    ∀ p, ∀ tx ∈ s.txs p, ¬ tx.Holds event.eventId subscriberId
  | _ => True

end Relaying

end Jobs

end Jasil
