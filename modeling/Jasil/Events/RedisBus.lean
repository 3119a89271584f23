import Mathlib.Logic.Function.Basic
import Jasil.Events.EventLog
import Jasil.Streams.GroupLog
import Jasil.Transition.Reachability

/-! # The event bus on a Redis stream
Publishers append events to one stream, and consumers in any number of processes read it as one group, each in
a thread of its own: a consumer reads a batch, and for one entry after the other calls the handlers and
acknowledges.

* **`Consumer`**: a consumer thread, by what it does next; **`Streaming`**: the stream, the event log and all
  threads, with an onlooker's record.
* **`Streaming.step`**: what can happen next. Replies get lost, the client may send a command again, threads
  die, and the server loses all it has. -/

namespace Jasil.Events

open Jobs (Event)

/-- `_STREAM_MAXLEN`. -/
def streamMaxlen : ℕ := 10000

/-- `_READ_BATCH`. -/
def readBatch : ℕ := 10

/-- A handler, by a number of its own. -/
structure Handler where
  number : ℕ
  name : String
  deriving DecidableEq

/-- What the handlers of an event raised, in one text: the error of one, or that of the group. -/
def failureText (eventType : String) (handlers : List Handler) : List String → Option String
  | [] => none
  | [error] => some error
  | errors =>
      some (toString errors.length ++ " of " ++ toString handlers.length ++ " handlers failed for " ++ eventType
      ++ " (" ++ toString errors.length ++ " sub-exceptions)")

/-- The names of the handlers, `None` when there is nothing to join. -/
def handlerName (handlers : List Handler) : Option String :=
  let joined := ",".intercalate (handlers.map Handler.name)
  if joined = "" then none else some joined

/-- The handlers of an event type, in the order in which they subscribed. -/
def handlersOf (subscriptions : List (String × Handler)) (eventType : String) : List Handler :=
  (subscriptions.filter fun subscription => subscription.1 = eventType).map Prod.snd

/-- A `RedisStreamEventBus`. -/
structure Bus where
  /-- `_handlers`, in the order of the calls of `subscribe`. -/
  subscriptions : List (String × Handler) := []
  /-- `_thread`. -/
  thread : Option ℕ := none

/-- What was appended: its fields, and how many entries had been appended before. -/
structure Appended (Fields : Type) where
  serial : ℕ
  fields : Fields

/-- An entry of the stream. -/
abbrev StreamEntry (Fields : Type) := LogEntry (Appended Fields)

/-- What a consumer does next. -/
inductive Stage (Fields : Type)
  /-- It looks whether it was stopped. -/
  | checking
  /-- It reads, or has the group created before. -/
  | polling
  /-- It takes up the next entry of its batch. -/
  | dispatching
  /-- `mark_processing`. -/
  | marking (entry : StreamEntry Fields) (event : Event) (live : Bool) (name : Option String)
  /-- It calls the handler of this number; a list of handlers that was there stays the one of the bus. -/
  | calling (entry : StreamEntry Fields) (event : Event) (live : Bool) (name : Option String) (next : ℕ)
    (errors : List String)
  /-- `mark_completed` or `mark_failed`. -/
  | recording (entry : StreamEntry Fields) (event : Event) (name : Option String) (failure : Option String)
  | acking (entry : StreamEntry Fields)

/-- A consumer thread. -/
structure Consumer (Fields : Type) where
  bus : ℕ
  /-- Its stop event is set. -/
  stopped : Bool := false
  groupMissing : Bool := false
  /-- The entries that were read and not taken up. -/
  batch : List (StreamEntry Fields) := []
  stage : Stage Fields := .checking

/-! ## What an onlooker records -/

/-- The consumer was given the entry. -/
structure Claim (Fields : Type) where
  serial : ℕ
  fields : Fields
  consumer : ℕ
  bus : ℕ
  /-- The subscriptions of its bus then. -/
  subscriptions : List (String × Handler)

/-- A handler was called for an entry. -/
structure HandlerCall where
  serial : ℕ
  consumer : ℕ
  handler : Handler
  /-- What it raised, if anything. -/
  error : Option String

/-- An entry was dispatched, for the event that its fields hold, if they do. -/
structure Dispatch where
  serial : ℕ
  event : Option Event
  failure : Option String

/-- Everything there is. -/
structure Streaming (Fields : Type) where
  server : Option (GroupLog (Appended Fields))
  log : LogTable
  buses : ℕ → Bus
  consumers : ℕ → Option (Consumer Fields)
  /-- The consumer threads that were ever started. -/
  threads : ℕ
  /-- The calls of `publish` that are about to append. -/
  publishers : ℕ → Option Fields
  /-- How many entries were appended. -/
  appended : ℕ
  /-- The entries that the server dropped before anyone was given them. -/
  dropped : List ℕ
  claims : List (Claim Fields)
  calls : List HandlerCall
  /-- The events that were taken up. -/
  taken : List Event
  dispatches : List Dispatch

/-- What comes of a command. -/
inductive Reply
  | answered
  /-- It did not reach the server. -/
  | unreachable
  /-- It reached the server, but the answer was lost; the client may send it again. -/
  | lost (retried : Bool)
  deriving DecidableEq

/-- A step of a consumer. -/
inductive Turn
  | check
  | ensureGroup (reply : Reply)
  | read (reply : Reply)
  | take
  /-- `mark_processing`; the event log may be out of reach. -/
  | mark (recorded : Bool) (now : Instant)
  /-- The next handler is called, and returns or raises. -/
  | call (error : Option String)
  /-- No handler is left. -/
  | finish
  | record (recorded : Bool) (elapsedMs : ℤ) (now : Instant)
  | ack (executed : Bool)

/-- What can happen next. -/
inductive BusStep (Fields : Type)
  | subscribe (b : ℕ) (eventType : String) (handler : Handler)
  | start (b : ℕ) (reply : Reply)
  | stop (b : ℕ)
  /-- `publish` up to its `XADD`; the event log may be out of reach. -/
  | publish (p : ℕ) (event : Event) (recorded : Bool) (now : Instant)
  /-- The `XADD`, which the client may send again. -/
  | add (p : ℕ) (id : ℕ) (trim : ℕ) (again : Bool)
  | giveUp (p : ℕ)
  /-- Someone else appends. -/
  | foreign (fields : Fields) (id : ℕ) (trim : ℕ)
  /-- The server loses its data. -/
  | flush
  | turn (c : ℕ) (t : Turn)
  | die (c : ℕ)
  /-- An event is staged for the durable route. -/
  | queue (event : Event) (now : Instant)
  /-- One batch of `delete_events_before`. -/
  | prune (cutoff : Instant) (size : ℕ) (page : List String)

namespace Streaming

variable {Fields : Type}

/-- No stream and no consumer yet. -/
def init : Streaming Fields where
  server := none
  log := .empty
  buses := fun _ => {}
  consumers := fun _ => none
  threads := 0
  publishers := fun _ => none
  appended := 0
  dropped := []
  claims := []
  calls := []
  taken := []
  dispatches := []

/-- The entries that nobody was given. -/
def waiting (s : Streaming Fields) : List (StreamEntry Fields) := s.server.elim [] GroupLog.waiting

/-- The consumer `c` stands there. -/
def set (s : Streaming Fields) (c : ℕ) (k : Option (Consumer Fields)) : Streaming Fields :=
  { s with consumers := Function.update s.consumers c k }

/-- `XADD`, with an id that the server chooses and as much trimmed as it sees fit. -/
def xadd (s : Streaming Fields) (fields : Fields) (id trim : ℕ) : Option (Streaming Fields) :=
  let log := s.server.getD .empty
  if h : log.lastId < id then
    let log := log.append id ⟨s.appended, fields⟩ h
    if trim = 0 ∨ streamMaxlen + trim ≤ log.entries.length then
      let unread := (log.entries.take trim).filter fun e => groupCursor log.group < e.id
      some { s with
        server := some (log.trim trim)
        appended := s.appended + 1
        dropped := s.dropped ++ unread.map fun e => e.value.serial }
    else none
  else none

/-- `_ensure_group`: `XGROUP CREATE` with `MKSTREAM`, where it is no error that there is the group already. -/
def ensureGroup (s : Streaming Fields) (reply : Reply) : Streaming Fields :=
  if reply = .unreachable then s else { s with server := some (s.server.getD .empty).createGroup }

section Step

variable (serialize : Event → Option Fields) (deserialize : Fields → Option Event) (recording : Bool)
  (identity : ℕ → String)

/-- The claims of a consumer that is given entries. -/
def claimsOf (s : Streaming Fields) (c : ℕ) (k : Consumer Fields) (given : List (StreamEntry Fields)) :
    List (Claim Fields) :=
  given.map fun e => ⟨e.value.serial, e.value.fields, c, k.bus, (s.buses k.bus).subscriptions⟩

/-- A read of the consumer `c`. -/
def readStep (s : Streaming Fields) (c : ℕ) (k : Consumer Fields) (reply : Reply) : Streaming Fields :=
  match reply, s.server.bind fun log => log.read readBatch with
  | .unreachable, _ => s.set c (some { k with stage := .checking })
  -- `NOGROUP`
  | .answered, none => s.set c (some { k with stage := .checking, groupMissing := true })
  | .answered, some (given, log) =>
    { s.set c (some { k with batch := given, stage := .dispatching }) with
      server := some log, claims := s.claims ++ claimsOf s c k given }
  | .lost retried, none => s.set c (some { k with stage := if retried then .polling else .checking })
  -- nobody will dispatch what was handed out
  | .lost retried, some (given, log) =>
    { s.set c (some { k with stage := if retried then .polling else .checking }) with
      server := some log, claims := s.claims ++ claimsOf s c k given }

/-- The next entry of a batch is taken up. -/
def takeStep (s : Streaming Fields) (c : ℕ) (k : Consumer Fields) : Streaming Fields :=
  match k.batch with
  | [] => s.set c (some { k with stage := .checking })
  | entry :: batch =>
    match deserialize entry.value.fields with
    | none =>
      { s.set c (some { k with batch, stage := .acking entry }) with
        dispatches := s.dispatches ++ [⟨entry.value.serial, none, none⟩] }
    | some event =>
      let handlers := handlersOf (s.buses k.bus).subscriptions event.eventType
      let live := decide (handlers ≠ [])
      let name := handlerName handlers
      let stage := if recording then .marking entry event live name else .calling entry event live name 0 []
      { s.set c (some { k with batch, stage }) with taken := s.taken ++ [event] }

/-- The handlers that a consumer goes through: those of its bus now, if there was one when it began. -/
def handlersFor (s : Streaming Fields) (k : Consumer Fields) (event : Event) (live : Bool) : List Handler :=
  if live then handlersOf (s.buses k.bus).subscriptions event.eventType else []

/-- A step of the consumer `c`, by where it stands. -/
def turn (s : Streaming Fields) (c : ℕ) (k : Consumer Fields) (t : Turn) : Option (Streaming Fields) :=
  match t, k.stage with
  | .check, .checking => some (s.set c (if k.stopped then none else some { k with stage := .polling }))
  | .ensureGroup reply, .polling =>
    let stage := if reply = .answered then .polling else .checking
    if k.groupMissing then some ((s.ensureGroup reply).set c (some { k with groupMissing := false, stage }))
      else none
  | .read reply, .polling => if k.groupMissing then none else some (s.readStep c k reply)
  | .take, .dispatching => some (s.takeStep deserialize recording c k)
  | .mark recorded now, .marking entry event live name =>
    some { s.set c (some { k with stage := .calling entry event live name 0 [] }) with
      log := if recorded then markProcessing s.log event (identity k.bus) now else s.log }
  | .call error, .calling entry event live name next errors =>
    (s.handlersFor k event live)[next]?.map fun handler =>
      { s.set c (some { k with stage := .calling entry event live name (next + 1) (errors ++ error.toList) })
      with
        calls := s.calls ++ [⟨entry.value.serial, c, handler, error⟩] }
  | .finish, .calling entry event live name next errors =>
    let handlers := s.handlersFor k event live
    let failure := failureText event.eventType handlers errors
    let stage := if recording then .recording entry event name failure else .acking entry
    if handlers.length ≤ next then
      some { s.set c (some { k with stage }) with
        dispatches := s.dispatches ++ [⟨entry.value.serial, some event, failure⟩] }
    else none
  | .record recorded elapsedMs now, .recording entry event name failure =>
    let log := failure.elim (markCompleted s.log event name elapsedMs now) fun failure =>
      markFailed s.log event name failure elapsedMs now
    some { s.set c (some { k with stage := .acking entry }) with log := if recorded then log else s.log }
  | .ack executed, .acking entry =>
    some { s.set c (some { k with stage := .dispatching }) with
      server := if executed then s.server.map fun log => log.ack entry.id else s.server }
  | _, _ => none

/-- Take one step. -/
def step (s : Streaming Fields) : BusStep Fields → Option (Streaming Fields)
  | .subscribe b eventType handler =>
    let bus := s.buses b
    some { s with
      buses := Function.update s.buses b
        { bus with subscriptions := bus.subscriptions ++ [(eventType, handler)] } }
  | .start b reply =>
    let bus := s.buses b
    match bus.thread with
    | some _ => some s
    | none =>
      if reply = .answered then
        some { (s.ensureGroup reply).set s.threads (some { bus := b }) with
          buses := Function.update s.buses b { bus with thread := some s.threads }, threads := s.threads + 1 }
      else some (s.ensureGroup reply)
  | .stop b =>
    let bus := s.buses b
    match bus.thread with
    | none => some s
    | some c =>
      let consumer := (s.consumers c).map fun k => { k with stopped := true }
      some { s.set c consumer with buses := Function.update s.buses b { bus with thread := none } }
  | .publish p event recorded now =>
    match s.publishers p, serialize event with
    | none, some fields =>
      some { s with
        publishers := Function.update s.publishers p (some fields)
        log := if recording && recorded then recordPublished s.log event now else s.log }
    | _, _ => none
  | .add p id trim again =>
    match s.publishers p with
    | some fields =>
      let publishers := Function.update s.publishers p (if again then some fields else none)
      (s.xadd fields id trim).map fun s => { s with publishers }
    | none => none
  | .giveUp p => some { s with publishers := Function.update s.publishers p none }
  | .foreign fields id trim => s.xadd fields id trim
  | .flush =>
    some { s with server := none, dropped := s.dropped ++ s.waiting.map fun e => e.value.serial }
  | .turn c t => (s.consumers c).bind fun k => s.turn deserialize recording identity c k t
  | .die c => some (s.set c none)
  | .queue event now => some { s with log := if recording then recordQueued s.log event now else s.log }
  | .prune cutoff size page =>
    if s.log.IsPage (fun row => row.createdAt < cutoff) size page then
      some { s with log := deleteEventsBatch s.log page }
    else none

end Step

end Streaming

end Jasil.Events
