import ExAgent.Api.Tasks
import ExAgent.Lib.Json
import ExAgent.Stores.Contracts

/-!
# The operators' requests for blocked cleanups

`FailureOperations` of `agent/failure/operations.py`: any number of operators ask for a `RETRY` or a
`FINALIZE` of blocked cleanups, beside the recovery loop. A request is authorized, asks
`FailureStore.retry_blocked`, and for a `FINALIZE` then executes the cleanup and looks at its row.

The store's calls are those of `Stores`, each a transaction under the lock of the cleanup's row from
its first read on, run as one step. What the rest of the services writes to other tables is up to
them. The requests are kept in the order in which they came to the store, with the ones that took
their cleanup out of `BLOCKED` (`applied`) and the calls of `FailureService.execute` (`executed`).
-/

namespace ExAgent.Failure.Operators

open Lib
open Stores (CleanupRow Db Row RowKey Operation OperatorAction StoreError Settings Op TaskEvent)

/-! ## Requests -/

/-- `FailureOperationInput`. -/
structure Input where
  idempotencyKey : String
  expectedVersion : ℕ
  reason : String
deriving DecidableEq

/-- The call of `retry` or `finalize` that an operator makes for a Task. -/
structure Request where
  actor : String
  taskId : Uuid
  action : OperatorAction
  input : Input
deriving DecidableEq

/-- What identifies an operation to its operator. -/
def Request.key (r : Request) : String × Uuid × String :=
  (r.actor, r.taskId, r.input.idempotencyKey)

/-- The text of an action. -/
def actionText : OperatorAction → String
  | .retry => "RETRY"
  | .finalize => "FINALIZE"

/-- The operators of `FailureOperatorPolicy`, the digests of the standard library (`uuid5` with
`NAMESPACE_URL`), and the settings of the stores. -/
structure Desk where
  operators : List String
  uuid5 : String → Uuid
  sha256 : String → Sha256
  settings : Settings

/-- The name under `uuid5`. -/
def Request.name (r : Request) : String :=
  "ex-agent/failure-operation/" ++ r.actor ++ "/" ++ String.ofList (Api.uuidText r.taskId) ++ "/" ++
    r.input.idempotencyKey

/-- The text of `_request_hash`. -/
def Request.text (r : Request) : String :=
  let members : Json ℕ .members :=
    .member "action" (.string (actionText r.action)) (.member "expected_version"
      (.number r.input.expectedVersion) (.member "idempotency_key" (.string r.input.idempotencyKey)
        (.member "reason" (.string r.input.reason) (.member "task_id"
          (.string (String.ofList (Api.uuidText r.taskId))) .empty))))
  String.ofList ((Json.object members).text (Nat.toDigits 10))

/-- The operation that `_request` hands to the store. -/
def Request.operation (D : Desk) (r : Request) : Operation where
  id := D.uuid5 r.name
  action := r.action
  hash := D.sha256 r.text
  reason := r.input.reason
  actor := r.actor

/-- What `_request` raises. -/
inductive OperationError
  /-- `FailureOperationsForbidden`. -/
  | forbidden (message : String)
  | store (error : StoreError)
deriving DecidableEq

/-- Where a request stands. -/
inductive Phase
  /-- `FailureService.execute` is to be called. -/
  | executing (replayed : Bool)
  /-- It has returned, and the row is to be read again. -/
  | executed (replayed : Bool)
  /-- `FailureOperationResult`. -/
  | answered (cleanup : CleanupRow) (replayed : Bool)
  | raised (error : OperationError)
  /-- Its process died, or `execute` raised. -/
  | lost
deriving DecidableEq

/-- A request with where it stands. -/
structure Call where
  request : Request
  phase : Phase
deriving DecidableEq

/-- The end of `_request`, by the row it has. -/
def finish (action : OperatorAction) (row : CleanupRow) (replayed : Bool) : Phase :=
  if action = .finalize ∧ row.state ≠ .done then
    .raised (.store (.failureOperationConflict
      (if Stores.isText row.lastError then row.lastError.getD ""
        else "Terminal Executor and checkpoint evidence is incomplete")))
  else .answered row replayed

/-- `_request` after `retry_blocked` has returned. -/
def afterStore (action : OperatorAction) (row : CleanupRow) (replayed : Bool) : Phase :=
  if action = .finalize ∧ row.state = .pending then .executing replayed
  else finish action row replayed

/-! ## The system -/

/-- The database, the requests in their order, those that were applied, and those that called
`execute`. -/
structure State where
  db : Db
  requests : List Call := []
  applied : List ℕ := []
  executed : List ℕ := []

/-- A step of the system. -/
inductive Action
  /-- The recovery loop, or an `execute` of a request, calls the store. -/
  | recover (op : Op)
  /-- The other services write. -/
  | others (other : Db) (events : List TaskEvent)
  /-- A request up to its answer from the store. -/
  | request (r : Request) (now : Time)
  /-- A request calls `FailureService.execute`; its work are the calls of the store. -/
  | execute (i : ℕ)
  /-- A request reads the row after `execute`. -/
  | read (i : ℕ)
  | lose (i : ℕ)

/-- The calls of the store that the recovery makes. -/
def isRecovery : Op → Bool
  | .ensure .. | .claimCleanup .. | .deferCleanup .. | .fenced .. => true
  | _ => false

/-- A row of `agent_task_events` that an operator's request adds. -/
def isOperatorEvent : TaskEvent → Bool
  | .failureCleanupOperatorRequested .. => true
  | _ => false

/-- The operators' events. -/
def operatorEvents (db : Db) : List TaskEvent := db.events.filter isOperatorEvent

/-- What the other services leave: they touch no cleanup, and add events of their own. -/
def elsewhere (db other : Db) (events : List TaskEvent) : Db :=
  { other with
    cleanups := db.cleanups
    events := db.events ++ events.filter fun event => !isOperatorEvent event }

/-- `retry_blocked` for a request. -/
def retryBlocked (D : Desk) (r : Request) (now : Time) (db : Db) : Stores.Result × Db :=
  (Stores.FailureStore.retryBlocked r.taskId (r.operation D) r.input.expectedVersion now).exec
    Db.row db

/-- A request up to its answer from the store: where it stands, the database, and whether it was
applied. -/
def begin (D : Desk) (r : Request) (now : Time) (db : Db) : Phase × Db × Bool :=
  if r.actor ∉ D.operators then
    (.raised (.forbidden "User is not authorized for failure operations"), db, false)
  else
    match retryBlocked D r now db with
    | (.ok (.operation row replayed), db') => (afterStore r.action row replayed, db', !replayed)
    | (.ok _, db') => (.lost, db', false)
    | (.error error, db') => (.raised (.store error), db', false)

/-- A request goes on. -/
def State.put (s : State) (i : ℕ) (c : Call) (phase : Phase) : State :=
  { s with requests := s.requests.set i { c with phase } }

/-- One step. -/
def step (D : Desk) (s : State) : Action → Option State
  | .recover op =>
    if isRecovery op then some { s with
      db := ((op.program D.settings).exec Db.row s.db).2 } else none
  | .others other events => some { s with db := elsewhere s.db other events }
  | .request r now =>
    let (phase, db, applied) := begin D r now s.db
    some { s with
      db
      requests := s.requests ++ [⟨r, phase⟩]
      applied := if applied then s.applied ++ [s.requests.length] else s.applied }
  | .execute i => (s.requests[i]?).bind fun c =>
    match c.phase with
    | .executing replayed =>
      some { s.put i c (.executed replayed) with executed := s.executed ++ [i] }
    | _ => none
  | .read i => (s.requests[i]?).bind fun c =>
    match c.phase with
    | .executed replayed => some (s.put i c (match s.db.cleanups.get c.request.taskId with
      -- The row is read again after the execution.
      | none => .raised (.store (.lookupError ("Unknown failure cleanup: " ++
          String.ofList (Api.uuidText c.request.taskId))))
      | some row => finish c.request.action row replayed))
    | _ => none
  | .lose i => (s.requests[i]?).bind fun c =>
    match c.phase with
    -- The caller goes away before it is answered.
    | .executing _ | .executed _ => some (s.put i c .lost)
    | _ => none

/-- The desk at work, from a database without cleanups on. -/
def machine (D : Desk) : Machine State Action where
  init s := ∃ db : Db, db.cleanups = .empty ∧ operatorEvents db = [] ∧ s = { db }
  step := step D

end ExAgent.Failure.Operators
