import ExAgent.Values

/-!
# The worker's events and rows

The data of the executor worker: the event an Executor publishes, the rows of the four `ew_` tables
of one namespace with their check constraints as enumerations, and the results of a handler. The
audit columns (`created_by`, `updated_by`, `updated_at`) are written by every statement and read by
none, so they are left out; `created_at` of an outbox row is kept because publication is ordered
by it.
-/

namespace ExAgent.Worker

/-- `ExecutorEvent`, with the constraints of its fields. `payload` and the extra fields are the
canonical text of their JSON; `schema_version` is the literal `1.0`. -/
structure ExecutorEvent where
  eventId : Uuid
  executionId : Uuid
  eventType : String
  eventSequence : ℕ
  occurredAt : String
  payload : String
  extra : String
  /-- `event_type: str = Field(min_length=1)`. -/
  eventType_nonempty : eventType ≠ ""
  /-- `event_sequence: int = Field(ge=1)`. -/
  eventSequence_pos : 1 ≤ eventSequence
deriving DecidableEq

/-- The type of a completion is a text. -/
theorem completed_nonempty : "execution.completed" ≠ "" := by decide

/-- `ew_inbox_state_check`. -/
inductive InboxState
  | received
  | routed
  | ignored
deriving DecidableEq, Repr

/-- `ew_commands_state_check`. -/
inductive CommandState
  | ready
  | running
  | done
  | failed
  | ignored
deriving DecidableEq, Repr

/-- The states that end a command: it neither runs again nor holds back a later one. -/
def CommandState.settled : CommandState → Bool
  | .done | .ignored => true
  | .ready | .running | .failed => false

/-- `ew_outbox_state_check`. -/
inductive OutboxState
  | pending
  | claimed
  | sent
deriving DecidableEq, Repr

/-- A row of `ew_bindings`; its key is the execution. -/
structure Binding where
  sessionId : String
  taskId : String
  lastSequence : ℕ
  nextScanAt : Time
  lastError : Option String
  catchUpVersion : ℕ
  caughtUpVersion : ℕ
deriving DecidableEq

/-- A row of `ew_inbox`; its key is the event. -/
structure InboxRow where
  executionId : Uuid
  sequence : ℕ
  event : ExecutorEvent
  state : InboxState
deriving DecidableEq

/-- A row of `ew_commands`; its key is the command. -/
structure CommandRow where
  eventId : Uuid
  executionId : Uuid
  sequence : ℕ
  state : CommandState
  failureAttempts : ℕ
  generation : ℕ
  lastError : Option String
deriving DecidableEq

/-- A row of `ew_outbox`; its key is the command. -/
structure OutboxRow where
  generation : ℕ
  state : OutboxState
  claimToken : Option Uuid
  claimUntil : Option Time
  createdAt : Time
deriving DecidableEq

/-- `ew_audit.action`. -/
inductive AuditAction
  | retry
  | skip
deriving DecidableEq

/-- A row of `ew_audit`. -/
structure AuditRow where
  commandId : Uuid
  action : AuditAction
  reason : String
  actor : String
deriving DecidableEq

/-- What `Store.command` selects: the command joined with its event and its binding. -/
structure CommandView where
  row : CommandRow
  event : ExecutorEvent
  sessionId : String
  taskId : String

/-- The exceptions of the store: its own checks, and what the database raises. -/
inductive StoreError
  | valueError (message : String)
  | databaseError
deriving DecidableEq

/-- `AckDecision`. -/
inductive AckDecision
  | ack
  | defer
  | retry
  | deadLetter
deriving DecidableEq

/-- `HandlerResult`. -/
structure HandlerResult where
  decision : AckDecision
  outcome : String
  reason : Option String
deriving DecidableEq

/-- How a call of a handler ends. -/
inductive HandlerOutcome
  /-- The handler returned. -/
  | returned
  /-- `DeferEvent`, `LeaseLostError`, `DatabaseError`, `PoolTimeout` or `RedisError`. -/
  | raisedDefer
  /-- `IgnoreEvent`, with its text. -/
  | raisedIgnore (message : String)
  /-- `RejectEvent`, with its text. -/
  | raisedReject (message : String)
  /-- Any other exception, with its type's name and text. -/
  | raisedOther (typeName message : String)
deriving DecidableEq

end ExAgent.Worker
