import ExAgent.Api.Tasks
import ExAgent.Graph.Contracts
import ExAgent.Lib.Dictionary
import ExAgent.Lib.Fallible
import ExAgent.Lib.Table
import ExAgent.Lib.Transition

/-!
# The events of the Executor

`ExecutorEventProcessor` of `ex_agent/workers/executor_events.py`, `ExecutorClient.events_after` and
the transactions of `ExecutionRepository` that it calls, as a machine: any number of calls of
`process`, each of which reads the binding, reads a history and writes event by event, beside the
other writers of the rows. A call can die between any two of its awaits; a transaction takes effect
at once or not at all.

The other writers create Tasks and commands, write the status of a Task, bind an execution and note
the sequence of a signal. `prepare_failure_compensation` is not among them: it turns the command of
a failed worker run, whatever its kind, into a `FAILURE_COMPENSATION` with another payload.
-/

namespace ExAgent.Workers

open Lib
open ExAgent.Graph (TaskStatus)

/-! ## Rows -/

/-- The `event_type` of an event. -/
inductive EventType
  | started
  | operationStarted
  | stepStarted
  | stepCompleted
  | operationCompleted
  | completed
deriving DecidableEq

/-- Its text. -/
def EventType.text : EventType → String
  | .started => "execution.started"
  | .operationStarted => "execution.operation_started"
  | .stepStarted => "execution.step_started"
  | .stepCompleted => "execution.step_completed"
  | .operationCompleted => "execution.operation_completed"
  | .completed => "execution.completed"

/-- The events that the graph waits for. -/
def EventType.isBoundary : EventType → Bool
  | .operationCompleted | .completed => true
  | _ => false

/-- `ExecutorEvent`; the payload is its JSON text. -/
structure ExecutorEvent where
  eventId : Uuid
  eventType : EventType
  executionId : Uuid
  eventSequence : ℕ
  payload : String
deriving DecidableEq

/-- `ExecutorBinding`, by its Task. -/
structure Binding where
  executionId : Uuid
  lastEventSequence : ℕ

/-- The payload of a row that is written for an event. -/
structure EventPayload where
  executionId : Uuid
  eventId : Uuid
  eventSequence : ℕ
  /-- The payload of the event, or the type of a boundary. -/
  content : String
deriving DecidableEq

/-- `TaskEvent`, of the kinds that are written here. -/
structure TaskEvent where
  taskId : Uuid
  eventType : String
  payload : EventPayload
deriving DecidableEq

/-- `WorkflowCommand`, by its idempotency key; the signal of a command of type `EXECUTOR_SIGNAL`. -/
structure WorkflowCommand where
  taskId : Uuid
  signal : Option EventPayload
deriving DecidableEq

/-- The tables. -/
structure Db where
  tasks : Table Uuid TaskStatus := .empty
  bindings : Table Uuid Binding := .empty
  /-- The names of a stream and of a message in it, which together are unique. -/
  inbox : List (String × String) := []
  commands : Table String WorkflowCommand := .empty
  events : List TaskEvent := []

/-- What the transactions and the calls raise. -/
inductive IngestError
  /-- `LookupError`. -/
  | lookup
  /-- `ExecutorEventSequenceGapError`. -/
  | gap (expected received : ℕ)
  /-- A unique constraint. -/
  | integrity
  | mixedExecutions
  | conflictingIds
  | openGap
  | notAdvanced
  /-- A request or another call that fails. -/
  | failed
deriving DecidableEq

/-! ## Transactions -/

/-- `dedupe_id`. -/
def messageId (event : ExecutorEvent) : String :=
  "event:" ++ String.ofList (Api.uuidText event.eventId)

/-- The `idempotency_key` of a signal. -/
def signalKey (event : ExecutorEvent) : String :=
  "executor-event:" ++ String.ofList (Api.uuidText event.eventId)

/-- What a row says of an event. -/
def eventPayload (event : ExecutorEvent) : EventPayload where
  executionId := event.executionId
  eventId := event.eventId
  eventSequence := event.eventSequence
  content := if event.eventType.isBoundary then event.eventType.text else event.payload

/-- The `TaskEvent` of an event. -/
def taskEvent (taskId : Uuid) (event : ExecutorEvent) : TaskEvent where
  taskId := taskId
  eventType := if event.eventType.isBoundary then "executor.boundary_received"
    else event.eventType.text
  payload := eventPayload event

/-- The command of a boundary. -/
def signalCommand (taskId : Uuid) (event : ExecutorEvent) : WorkflowCommand :=
  ⟨taskId, some (eventPayload event)⟩

/-- `_advance_executor_sequence`. -/
def advanceExecutorSequence (db : Db) (taskId : Uuid) (received : ℕ) :
    Except IngestError (Bool × Db) :=
  match db.bindings.get taskId with
  | none => .error .lookup
  | some b =>
    if received ≤ b.lastEventSequence then .ok (false, db)
    else if received ≠ b.lastEventSequence + 1 then .error (.gap (b.lastEventSequence + 1) received)
    else .ok (true, { db with
      bindings := db.bindings.modifyAt taskId fun b => { b with lastEventSequence := received } })

/-- `_inbox_statement`: whether the row was there, and the table with it. -/
def insertInbox (db : Db) (streamName messageId : String) : Option Db :=
  if (streamName, messageId) ∈ db.inbox then none
  else some { db with inbox := db.inbox ++ [(streamName, messageId)] }

/-- `ingest_signal`. -/
def ingestSignal (db : Db) (streamName : String) (taskId : Uuid) (event : ExecutorEvent) :
    Except IngestError (Bool × Db) :=
  match insertInbox db streamName (messageId event) with
  | none => .ok (false, db)
  | some db₁ => do
    let (advanced, db₂) ← advanceExecutorSequence db₁ taskId event.eventSequence
    if advanced = false then .ok (false, db₂)
    else
      match db₂.commands.insert (signalKey event) (signalCommand taskId event) with
      | none => .error .integrity
      | some commands =>
        .ok (true, { db₂ with commands, events := db₂.events ++ [taskEvent taskId event] })

/-- `record_progress`: the Task goes on, whatever its status is. -/
def recordProgress (db : Db) (streamName : String) (taskId : Uuid) (event : ExecutorEvent) :
    Except IngestError (Bool × Db) :=
  match insertInbox db streamName (messageId event) with
  | none => .ok (false, db)
  | some db₁ => do
    let (advanced, db₂) ← advanceExecutorSequence db₁ taskId event.eventSequence
    if advanced = false then .ok (false, db₂)
    else if (db₂.tasks.get taskId).isNone then .error .lookup
    else .ok (true, { db₂ with
      tasks := db₂.tasks.modifyAt taskId fun _ => .executing
      events := db₂.events ++ [taskEvent taskId event] })

/-- The transaction of `ExecutorEventProcessor.persist`. -/
def persist (db : Db) (streamName : String) (taskId : Uuid) (event : ExecutorEvent) :
    Except IngestError (Bool × Db) :=
  if event.eventType.isBoundary then ingestSignal db streamName taskId event
  else recordProgress db streamName taskId event

/-- `for_execution`. -/
def bindingForExecution (db : Db) (executionId : Uuid) : Option (Uuid × Binding) :=
  db.bindings.entries.find? fun e => e.2.executionId = executionId

/-- `bind`. -/
def bind (db : Db) (taskId executionId : Uuid) : Except IngestError Db :=
  if (db.tasks.get taskId).isNone then .error .lookup
  else if (bindingForExecution db executionId).isSome then .error .integrity
  else
    match db.bindings.insert taskId ⟨executionId, 0⟩ with
    | none => .error .integrity
    | some bindings => .ok { db with bindings }

/-- `update`, as the graph calls it with the sequence of a signal. -/
def updateBinding (db : Db) (taskId : Uuid) (lastEventSequence : ℕ) : Except IngestError Db :=
  if (db.bindings.get taskId).isNone then .error .lookup
  else .ok { db with bindings := db.bindings.modifyAt taskId fun b =>
    { b with lastEventSequence := max b.lastEventSequence lastEventSequence } }

/-! ## The history -/

/-- `ExecutorEventPage`. -/
structure ExecutorEventPage where
  items : List ExecutorEvent
  nextCursor : Option String
  hasMore : Bool

/-- `events_after`, with the pages that are answered; the request after the last one fails. -/
def eventsAfter (remaining : ℤ) : List ExecutorEventPage → Except IngestError (List ExecutorEvent)
  | [] => if remaining ≤ 0 then .ok [] else .error .failed
  | page :: pages =>
    if remaining ≤ 0 then .ok []
    else if page.hasMore = false ∨ page.nextCursor = none then .ok page.items
    else if page.items = [] then .error .notAdvanced
    else do
      let rest ← eventsAfter (remaining - page.items.length) pages
      .ok (page.items ++ rest)

/-- One round over the events of a history. -/
def mergeEvent (current : ExecutorEvent) (afterSequence : ℕ)
    (bySequence : Dictionary ℕ ExecutorEvent)
    (event : ExecutorEvent) : Except IngestError (Dictionary ℕ ExecutorEvent) :=
  if event.executionId ≠ current.executionId then .error .mixedExecutions
  else if ¬ (afterSequence < event.eventSequence ∧
    event.eventSequence ≤ current.eventSequence) then .ok bySequence
  else if (bySequence.get event.eventSequence).any fun existing => existing.eventId ≠
    event.eventId then
    .error .conflictingIds
  else .ok (bySequence.insert event.eventSequence event)

/-- `merge_contiguous_events`. -/
def mergeContiguousEvents (current : ExecutorEvent) (history : List ExecutorEvent)
    (afterSequence : ℕ) :
    Except IngestError (List ExecutorEvent) :=
  if current.eventSequence ≤ afterSequence then .ok []
  else do
    let bySequence ← (history ++ [current]).foldlM (mergeEvent current afterSequence) .empty
    if bySequence.keys ≠ List.range' (afterSequence + 1)
      (current.eventSequence - afterSequence) then
      .error .openGap
    else .ok (bySequence.entries.map Prod.snd)

/-- `max([event, *history], key=event_sequence)`: the first of the greatest. -/
def newest (event : ExecutorEvent) (history : List ExecutorEvent) : ExecutorEvent :=
  history.foldl (fun m e => if m.eventSequence < e.eventSequence then e else m) event

/-- A call of `process`. -/
structure Call where
  stream : String
  event : ExecutorEvent
  catchUp : Bool

/-- How many events of the history are asked for, if any are. -/
def Call.limit (call : Call) (last : ℕ) : Option ℕ :=
  if call.catchUp then some 500
  else if last + 1 < call.event.eventSequence then some (call.event.eventSequence - last)
  else none

/-- The history that is read, if one is asked for. -/
def Call.fetch (call : Call) (last : ℕ) (pages : List ExecutorEventPage) :
    Except IngestError (List ExecutorEvent) :=
  match call.limit last with
  | some limit => eventsAfter limit pages
  | none => .ok []

/-- The events that are persisted, in their order. -/
def Call.ordered (call : Call) (last : ℕ) (history : List ExecutorEvent) :
    Except IngestError (List ExecutorEvent) :=
  mergeContiguousEvents (if call.catchUp then newest call.event history
    else call.event) history last

/-- `process`, with the pages that are answered and without anything beside it. -/
def process (db : Db) (call : Call) (pages : List ExecutorEventPage) :
    Except IngestError (Bool × Db) :=
  match bindingForExecution db call.event.executionId with
  | none => .ok (false, db)
  | some (taskId, b) => do
    let history ← call.fetch b.lastEventSequence pages
    let ordered ← call.ordered b.lastEventSequence history
    let db' ← ordered.foldlM (fun db event => (persist db call.stream taskId event).map Prod.snd) db
    .ok (true, db')

/-! ## The machine -/

/-- Where a call stands. -/
inductive Phase
  | unused
  /-- The binding is read, and the history is asked for. -/
  | fetching (call : Call) (taskId : Uuid) (last limit : ℕ)
  /-- The events that are left. -/
  | persisting (stream : String) (taskId : Uuid) (rest : List ExecutorEvent)
  | returned (processed : Bool)
  | raised (error : IngestError)
  | died

/-- The tables and the calls. -/
structure State where
  db : Db := {}
  calls : ℕ → Phase := fun _ => .unused

/-- What happens. -/
inductive Act
  /-- Another writer: a Task, its status, a command without a signal. -/
  | create (taskId : Uuid) (status : TaskStatus)
  | write (taskId : Uuid) (status : TaskStatus)
  | command (key : String) (taskId : Uuid)
  /-- The graph: an execution is bound, and the sequence of a signal is written. -/
  | bind (taskId executionId : Uuid)
  | reconcile (key : String)
  | begin (id : ℕ) (call : Call)
  | answer (id : ℕ) (pages : List ExecutorEventPage)
  /-- A transaction of `persist`; whether the call fails after it, in `publish_pending` or for an
  answer that is lost. -/
  | persist (id : ℕ) (fails : Bool)
  | die (id : ℕ)

/-- A call goes on. -/
def State.goto (s : State) (id : ℕ) (phase : Phase) : State :=
  { s with calls := Function.update s.calls id phase }

/-- The events are merged. -/
def afterHistory (call : Call) (taskId : Uuid) (last : ℕ) :
    Except IngestError (List ExecutorEvent) → Phase
  | .error e => .raised e
  | .ok history =>
    match call.ordered last history with
    | .error e => .raised e
    | .ok [] => .returned true
    | .ok (event :: rest) => .persisting call.stream taskId (event :: rest)

/-- The events that are left are persisted. -/
def afterPersist (stream : String) (taskId : Uuid) (rest : List ExecutorEvent)
    (fails : Bool) : Phase :=
  if fails then .raised .failed
  else if rest = [] then .returned true
  else .persisting stream taskId rest

/-- The phase after the binding was read. -/
def afterBinding (call : Call) : Option (Uuid × Binding) → Phase
  | none => .returned false
  | some (taskId, b) =>
    match call.limit b.lastEventSequence with
    | some limit => .fetching call taskId b.lastEventSequence limit
    | none => afterHistory call taskId b.lastEventSequence (.ok [])

/-- One step. -/
def step (s : State) : Act → Option State
  | .create taskId status =>
      (s.db.tasks.insert taskId status).map fun tasks => { s with db := { s.db with tasks } }
  | .write taskId status =>
    -- The writes of others to the Task's status.
    some { s with db := { s.db with tasks := s.db.tasks.modifyAt taskId fun _ => status } }
  | .command key taskId =>
    (s.db.commands.insert key ⟨taskId, none⟩).map fun commands =>
      { s with db := { s.db with commands } }
  | .bind taskId executionId => (bind s.db taskId executionId).toOption.map fun db => { s with db }
  | .reconcile key =>
    match s.db.commands.get key with
    -- A command with a signal moves the binding to its event.
    | some ⟨taskId, some signal⟩ =>
      (updateBinding s.db taskId signal.eventSequence).toOption.map fun db => { s with db }
    | _ => none
  | .begin id call =>
    match s.calls id with
    | .unused =>
      some (s.goto id (afterBinding call (bindingForExecution s.db call.event.executionId)))
    | _ => none
  | .answer id pages =>
    match s.calls id with
    | .fetching call taskId last limit =>
      some (s.goto id (afterHistory call taskId last (eventsAfter limit pages)))
    | _ => none
  | .persist id fails =>
    match s.calls id with
    | .persisting stream taskId (event :: rest) =>
      -- Each event has a transaction of its own.
      match persist s.db stream taskId event with
      | .ok (_, db) => some ({ s with db }.goto id (afterPersist stream taskId rest fails))
      | .error e => some (s.goto id (.raised e))
    | _ => none
  | .die id => some (s.goto id .died)

/-- The ingestion of the Executor's events. -/
def ingestion : Machine State Act := ⟨fun s => s = {}, step⟩

end ExAgent.Workers
