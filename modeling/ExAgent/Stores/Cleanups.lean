import ExAgent.Stores.Requests

/-!
# The transactions of `FailureStore`

`agent/failure/store.py`, statement by statement. A write of an attempt is fenced: the row has to be
`PENDING` with the attempt number of the record the caller holds. `finish` locks the cleanup and its
Task, compensates the requests of the Task that are still active and deletes its session lock, all
in one transaction.
-/

namespace ExAgent.Stores

open Lib ExAgent.Graph
open Session (ApiRequest ApiInput)

namespace FailureStore

/-- `required`. -/
def required (taskId : Uuid) (next : CleanupRow → Transaction) : Transaction :=
  lockCleanup taskId fun row =>
    match row with
    | none => raise (.lookupError "Unknown failure cleanup")
    | some row => next row

/-- `fenced`. -/
def fenced (record : CleanupRow) (next : CleanupRow → Transaction) : Transaction :=
  required record.taskId fun row =>
    if row.state ≠ .pending ∨ row.attempts ≠ record.attempts then
      raise (.valueError "Cleanup attempt was superseded")
    else next row

/-- `FailureStore.defer_busy`. -/
def deferBusy (taskId : Uuid) (now delay : Time) : Transaction :=
  required taskId fun row =>
    if row.state ≠ .pending then .ret (.ok .done)
    else save (fun db => db.putCleanup taskId
      { row with nextAttemptAt := now + delay, version := row.version + 1 }) .done

/-- The row that an operator's request leaves. -/
def retried (row : CleanupRow) (operation : Operation) (now : Time) : CleanupRow :=
  { row with
    state := .pending
    attempts := 0
    nextAttemptAt := now
    lastError := none
    lastOperation := some { operation with reason := clip operation.reason }
    version := row.version + 1 }

/-- The text of a cleanup's state. -/
def stateText : CleanupState → String
  | .pending => "PENDING"
  | .blocked => "BLOCKED"
  | .done => "DONE"

/-- `FailureStore.retry_blocked`. The action of an `Operation` is one of the two supported ones. -/
def retryBlocked (taskId : Uuid) (operation : Operation) (expectedVersion : ℕ) (now : Time) :
    Transaction :=
  required taskId fun row =>
    -- Only the last operation is remembered.
    if row.lastOperation.map Operation.id = some operation.id then
      if row.lastOperation.map Operation.hash ≠ some operation.hash then
        raise (.failureOperationConflict "Idempotency key was reused with another request")
      else .ret (.ok (.operation row true))
    else if row.state ≠ .blocked then
      raise (.failureOperationConflict ("Failure cleanup is not BLOCKED: " ++ stateText row.state))
    else if row.version ≠ expectedVersion then
      raise (.failureOperationConflict "Failure cleanup version changed; refresh before retry")
    else
      let row' := retried row operation now
      save (fun db => (db.putCleanup taskId row').addEvent
          (.failureCleanupOperatorRequested taskId
            { operation with reason := clip operation.reason } row.lastError row'.version))
        (.operation row' false)

/-- The turn of a Task: that of its `START`, or one made of its columns. -/
def turnOf (db : Db) (taskId : Uuid) (task : TaskRow) : TaskTurn :=
  match db.requests.entries.find? fun e =>
      decide (e.2.taskId = taskId) && decide (e.2.command.input = .start) with
  | some (_, start) => start.command.turn
  | none =>
    { userId := task.userId
      projectId := task.projectId
      sessionId := task.sessionId
      activeTaskId := taskId
      currentInputMessageId := task.inputMessageId
      userMessage := task.userMessage }

/-- The cleanup that `ensure` adds. -/
def opened (taskId sessionId : Uuid) (task : TaskRow) (turn : TaskTurn) (source : FailureSource)
    (reason : String) (executionId : Option Uuid) (now : Time) : CleanupRow where
  taskId := taskId
  sessionId := sessionId
  turn := turn
  source := source
  reason := clip reason
  nextAttemptAt := now
  executionId := executionId.or task.executionId
  preserveTerminal := task.status.isTerminal
  finalStatus := if task.status.isTerminal then task.status else .failed
  message := if task.status.isTerminal then task.terminalMessage else none
  executorStatus := if task.status.isTerminal then some .alreadyTerminal else none

/-- The session lock of a Task that is cleaned up. -/
def heldLock (row : CleanupRow) (lock : Option LockRow) (db : Db) : Option Db :=
  match lock with
  | none =>
    db.insertLock row.sessionId { activeTaskId := row.taskId, executionId := row.executionId }
  | some lock => some (db.putLock row.sessionId { lock with locked := true })

/-- `FailureStore.ensure`. -/
def ensure (taskId sessionId : Uuid) (source : FailureSource) (reason : String)
    (executionId : Option Uuid) (now : Time) : Transaction :=
  lockTask taskId fun task =>
    match task.filter fun task => task.sessionId = sessionId with
    | none => raise (.valueError "Failure source Task identity mismatch")
    | some task => .select fun db =>
      match db.cleanups.get taskId with
      | some existing =>
        -- A second failure keeps the first record, whose session and execution it must have.
        if existing.sessionId ≠ sessionId ∨
            (executionId ≠ none ∧ existing.executionId ≠ none ∧
              existing.executionId ≠ executionId) then
          raise (.valueError "Existing failure binding mismatch")
        else .ret (.ok (.cleanup existing))
      | none =>
        if executionId ≠ none ∧ task.executionId ≠ none ∧ task.executionId ≠ executionId then
          raise (.valueError "Failure source Execution identity mismatch")
        else .select fun db =>
          let row :=
            opened taskId sessionId task (turnOf db taskId task) source reason executionId now
          if task.status.isTerminal then
            -- A terminal Task keeps its result, and no lock is taken.
            if isText task.terminalMessage = false then
              raise (.valueError "Terminal Task has no durable result")
            else .commit (fun db => db.insertCleanup taskId row) (.ok (.cleanup row))
              (raise .integrityError)
          else lockSessionLock sessionId fun lock =>
            -- The session is held by this Task, or by none and then taken.
            if (lock.any fun lock => lock.activeTaskId ≠ taskId) = true then
              raise (.valueError "Another Task owns the session lock")
            else .commit (fun db => ((db.insertCleanup taskId row).bind (heldLock row lock)).map
                fun db => db.addEvent (.failureCleanupPending taskId source row.reason))
              (.ok (.cleanup row)) (raise .integrityError)

/-- A column that is empty or has the given Execution. -/
def isFor (executionId : Uuid) (column : Option Uuid) : Bool :=
  column.all fun id => id = executionId

/-- `FailureStore.bind_execution`. -/
def bindExecution (record : CleanupRow) (executionId : Uuid) : Transaction :=
  fenced record fun row =>
    -- The record, the Task and the lock may get an execution and never change it.
    if isFor executionId row.executionId = false then
      raise (.valueError "Cleanup Execution identity cannot change")
    else lockTask record.taskId fun task =>
      match task with
      | none => raise .assertionError
      | some task =>
        if isFor executionId task.executionId = false then
          raise (.valueError "Task Execution identity cannot change")
        else lockSessionLock row.sessionId fun lock =>
          match lock.filter fun lock => lock.activeTaskId = record.taskId with
          | none => raise (.valueError "Cleanup session lock is missing")
          | some lock =>
            if isFor executionId lock.executionId = false then
              raise (.valueError "Lock Execution identity cannot change")
            else
              let row' := { row with executionId := some executionId }.touch
              save (fun db => ((db.putCleanup record.taskId row').putTask record.taskId
                  { task with executionId := some executionId }).putLock row.sessionId
                  { lock with executionId := some executionId })
                (.cleanup row')

/-- The row that `claim` leaves of one that is `PENDING`. -/
def claimed (row : CleanupRow) (maxAttempts : ℕ) (now delay : Time) : CleanupRow :=
  if maxAttempts ≤ row.attempts then
    { row with
      state := .blocked
      lastError := if isText row.lastError then row.lastError
        else some "Cleanup attempt limit reached" }.touch
  else { row with attempts := row.attempts + 1, nextAttemptAt := now + delay }.touch

/-- `FailureStore.claim`. -/
def claim (taskId : Uuid) (maxAttempts : ℕ) (now delay : Time) : Transaction :=
  required taskId fun row =>
    if row.state ≠ .pending then .ret (.ok (.cleanup row))
    else
      let row' := claimed row maxAttempts now delay
      save (fun db => db.putCleanup taskId row') (.cleanup row')

/-- A status that proves that nothing runs. -/
def ExecutorStatus.isProof : ExecutorStatus → Bool
  | .notRequired | .succeeded | .failed | .cancelled => true
  | .alreadyTerminal | .other _ => false

/-- `FailureStore.confirm`. -/
def confirm (record : CleanupRow) (executionId : Option Uuid) (status : ExecutorStatus)
    (message : String) : Transaction :=
  if ExecutorStatus.isProof status = false then
    raise (.valueError "Executor terminal proof is required")
  else fenced record fun row =>
    let row' :=
      { row with executionId, executorStatus := some status, message := some message }.touch
    save (fun db => db.putCleanup record.taskId row') (.cleanup row')

/-- `FailureStore.defer`. -/
def defer (record : CleanupRow) (error : String) (now delay : Time)
    (blocked : Bool) : Transaction :=
  fenced record fun row =>
    save (fun db => db.putCleanup record.taskId
      { row with
        state := if blocked then .blocked else .pending
        lastError := some (clip error)
        nextAttemptAt := now + delay
        version := row.version + 1 }) .done

/-- The Task that `finish` leaves of one that is not terminal. -/
def settledTask (row : CleanupRow) (task : TaskRow) : TaskRow :=
  { task with
    status := row.finalStatus
    terminalMessage := row.message
    currentInterrupt := none
    executionId := row.executionId }

/-- The writes to the Task of a cleanup that is finished: a terminal Task stays as it is. -/
def settle (taskId : Uuid) (row : CleanupRow) (task : TaskRow) (db : Db) : Db :=
  if task.status.isTerminal then db
  else ((db.putTask taskId (settledTask row task)).addMessage
      { taskId := taskId
        role := .assistant
        content := row.message.getD ""
        metadata := some (.failure row.executionId row.source row.executorStatus) }).addEvent
      (.completed taskId row.finalStatus (some (row.source, row.executorStatus)))

/-- The rows of `UPDATE agent_api_requests … WHERE task_id = … AND state IN …`. -/
def isActiveOf (taskId : Uuid) : Row → Bool
  | .request r => decide (r.taskId = taskId) && r.state.isActive
  | _ => false

/-- The rows of `DELETE FROM agent_session_locks WHERE active_task_id = …`. -/
def isLockOf (taskId : Uuid) : Row → Bool
  | .lock r => decide (r.activeTaskId = taskId)
  | _ => false

/-- The keys that the `UPDATE` finds. -/
def activeRequests (db : Db) (taskId : Uuid) : List RowKey :=
  (db.requests.entries.filter fun e => isActiveOf taskId (.request e.2)).map fun e => .request e.1

/-- The keys that the `DELETE` finds. -/
def locksOf (db : Db) (taskId : Uuid) : List RowKey :=
  (db.locks.entries.filter fun e => isLockOf taskId (.lock e.2)).map fun e => .lock e.1

/-- The requests among the locked rows. -/
def requestIds (keys : List RowKey) : List Uuid :=
  keys.filterMap fun | .request id => some id | _ => none

/-- The session locks among the locked rows. -/
def lockIds (keys : List RowKey) : List Uuid :=
  keys.filterMap fun | .lock sessionId => some sessionId | _ => none

/-- `FailureStore.finish`. -/
def finish (record : CleanupRow) : Transaction :=
  if record.executorStatus = none ∨ isText record.message = false then
    raise (.valueError "Cannot finish without terminal proof")
  else fenced record fun row =>
    lockTask record.taskId fun task =>
      match task with
      | none => raise .assertionError
      | some task =>
        -- A Task that is terminal already must have the result of the record.
        if task.status.isTerminal ∧
            (task.status ≠ row.finalStatus ∨ task.terminalMessage ≠ row.message) then
          raise (.valueError "Existing terminal result cannot change")
        else .select fun db =>
          -- Its active requests are compensated and its locks deleted in the same commit.
          Txn.lockEach (isActiveOf record.taskId) (activeRequests db record.taskId)
            [] fun requests =>
            .select fun db =>
              Txn.lockEach (isLockOf record.taskId) (locksOf db record.taskId) [] fun locks =>
                save (fun db => (((settle record.taskId row task db).compensate
                    (requestIds requests)).deleteLocks (lockIds locks)).putCleanup record.taskId
                    { row with state := .done, lastError := none }.touch) .done

end FailureStore

end ExAgent.Stores
