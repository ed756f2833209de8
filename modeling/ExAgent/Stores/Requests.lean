import ExAgent.Stores.Tables

/-!
# The transactions of `RequestStore`

`agent/admission/store.py`, statement by statement. The request is looked up, the session's active
request and the Task's cleanup are read and the Task is locked one after the other, so that another
transaction can commit between any two of them; what is inserted is arbitrated by the unique indexes
when it is written. A loser reads the winner's row again in a transaction of its own. The last
section relates them to the one-step transactions of `Session.Admission`.
-/

namespace ExAgent.Stores

open Lib ExAgent.Graph
open Session (ApiRequest ApiInput RequestState busyText)

/-- What the stores raise. -/
inductive StoreError
  | sessionConflict (message : String)
  | sessionBusy (activeTaskId : Uuid) (message : String)
  | sessionLocked (activeTaskId : Uuid)
  | lookupError (message : String)
  | valueError (message : String)
  | failureOperationConflict (message : String)
  | assertionError
  /-- A unique index refused the writes. -/
  | integrityError
  /-- A row that was to be updated is gone. -/
  | staleDataError
deriving DecidableEq

/-- What the stores return. -/
inductive Answer
  | request (record : RequestRow)
  | cleanup (record : CleanupRow)
  | operation (record : CleanupRow) (replayed : Bool)
  | done
deriving DecidableEq

/-- The result of a store's method. -/
abbrev Result := Except StoreError Answer

/-- A transaction of the stores. -/
abbrev Transaction := Txn Db RowKey Row Result

/-- `raise`, which rolls back. -/
def raise (e : StoreError) : Transaction := .ret (.error e)

/-- A commit that no index can refuse. -/
def save (write : Db → Db) (answer : Answer) : Transaction :=
  .commit (fun db => some (write db)) (.ok answer) (raise .integrityError)

/-- `session.get(Task, id, with_for_update=True)`. -/
def lockTask (id : Uuid) (next : Option TaskRow → Transaction) : Transaction :=
  .lock (.task id) fun r => next (r.bind fun | .task row => some row | _ => none)

/-- `session.get(SessionLock, id, with_for_update=True)`. -/
def lockSessionLock (sessionId : Uuid) (next : Option LockRow → Transaction) : Transaction :=
  .lock (.lock sessionId) fun r => next (r.bind fun | .lock row => some row | _ => none)

/-- `session.get(ApiRequestRow, id, with_for_update=True)`. -/
def lockRequest (id : Uuid) (next : Option RequestRow → Transaction) : Transaction :=
  .lock (.request id) fun r => next (r.bind fun | .request row => some row | _ => none)

/-- `session.get(FailureCleanup, id, with_for_update=True)`. -/
def lockCleanup (taskId : Uuid) (next : Option CleanupRow → Transaction) : Transaction :=
  .lock (.cleanup taskId) fun r => next (r.bind fun | .cleanup row => some row | _ => none)

/-- `session.get(ExecutorBinding, id, with_for_update=True)`. -/
def lockBinding (taskId : Uuid) (next : Option Binding → Transaction) : Transaction :=
  .lock (.binding taskId) fun r => next (r.bind fun | .binding row => some row | _ => none)

/-- The settings of the services, and `ApiRequest.fingerprint`. -/
structure Settings where
  fingerprint : ApiRequest → Sha256
  maxAttempts : ℕ

namespace RequestStore

/-- `_record`. -/
def record (S : Settings) (row : RequestRow) : Except StoreError RequestRow :=
  if S.fingerprint row.command ≠ row.fingerprint then
    .error (.valueError "Stored API request fingerprint mismatch")
  else .ok row

/-- `validate_command`. -/
def validateCommand (S : Settings) (record : RequestRow) (command : ApiRequest) :
    Except StoreError Unit :=
  if record.command ≠ command ∨ record.fingerprint ≠ S.fingerprint command then
    .error (.sessionConflict "Request ID was reused with different input")
  else .ok ()

/-- The answer of `accept` for a request that has a row. -/
def replay (S : Settings) (existing : RequestRow) (command : ApiRequest) : Result := do
  let existing ← record S existing
  validateCommand S existing command
  return .request existing

/-- What `_admit_task` compares of a Task with the turn of a request. -/
def sameIdentity (task : TaskRow) (turn : TaskTurn) : Bool :=
  task.userId = turn.userId ∧ task.projectId = turn.projectId ∧ task.sessionId = turn.sessionId ∧
    task.userMessage = turn.userMessage ∧ task.inputMessageId = turn.currentInputMessageId

/-- The Task of a `START`. -/
def startTask (turn : TaskTurn) : TaskRow where
  userId := turn.userId
  projectId := turn.projectId
  sessionId := turn.sessionId
  inputMessageId := turn.currentInputMessageId
  userMessage := turn.userMessage
  status := .accepted

/-- The Task of a `START`, its message and its first event. -/
def insertStart (turn : TaskTurn) (db : Db) : Option Db := do
  let db ← db.insertTask turn.activeTaskId (startTask turn)
  let db ← db.insertMessage turn.currentInputMessageId
    { taskId := turn.activeTaskId, role := .user, content := turn.userMessage }
  return db.addEvent (.accepted turn.activeTaskId .accepted)

/-- A Task of the session that is not terminal. -/
def unfinished? (db : Db) (sessionId : Uuid) : Option Uuid :=
  (db.tasks.entries.find? fun e =>
    decide (e.2.sessionId = sessionId) && !e.2.status.isTerminal).map Prod.fst

/-- `_admit_task`: what it adds for the request. -/
def admitTask (command : ApiRequest) (next : (Db → Option Db) → Transaction) : Transaction :=
  let turn := command.turn
  .select fun db =>
    match db.cleanups.get turn.activeTaskId with
    | some _ => raise (.sessionConflict "Task failure cleanup forbids new input")
    | none => lockTask turn.activeTaskId fun task =>
      match command.input, task with
      | .resume .., none => raise (.sessionConflict "Task identity mismatch")
      | .resume .., some task =>
        if sameIdentity task turn = false then raise (.sessionConflict "Task identity mismatch")
        else if task.status.isTerminal then
          raise (.sessionConflict "Terminal Task cannot accept new input")
        else next some
      | .start, some _ =>
        raise (.sessionConflict "Task ID already exists; reuse its request ID")
      | .start, none =>
        .select fun db =>
          -- A row that is not locked does not count.
          let lock := (db.locks.get turn.sessionId).filter LockRow.locked
          .select fun db =>
            match lock, unfinished? db turn.sessionId with
            | some lock, _ => raise (.sessionBusy lock.activeTaskId (busyText lock.activeTaskId))
            | none, some id => raise (.sessionBusy id (busyText id))
            | none, none => next (insertStart turn)

/-- The row of an admitted request. -/
def admitted (S : Settings) (command : ApiRequest) (targetNode : Node)
    (baseCheckpointId : Option ℕ) (now : Time) : RequestRow where
  taskId := command.turn.activeTaskId
  sessionId := command.turn.sessionId
  command := command
  fingerprint := S.fingerprint command
  targetNode := targetNode
  baseCheckpointId := baseCheckpointId
  nextAttemptAt := now

/-- The second look at a request whose insert was refused. -/
def arbitrate (S : Settings) (command : ApiRequest) : Transaction :=
  .select fun db =>
    match db.requests.get command.requestId with
    | some existing => .ret (replay S existing command)
    | none => raise (.sessionConflict "API admission conflicts with existing work")

/-- `RequestStore.accept`. -/
def accept (S : Settings) (command : ApiRequest) (targetNode : Node) (baseCheckpointId : Option ℕ)
    (now : Time) : Transaction :=
  .select fun db =>
    match db.requests.get command.requestId with
    | some existing => .ret (replay S existing command)
    | none => .select fun db =>
      match db.activeRequest? command.turn.sessionId with
      | some active => raise (.sessionBusy active.taskId "Session has a pending API request")
      | none => admitTask command fun accept =>
        let row := admitted S command targetNode baseCheckpointId now
        .commit (fun db => (accept db).bind fun db => db.insertRequest command.requestId row)
          (.ok (.request row)) (arbitrate S command)

/-- `_required`. -/
def required (requestId : Uuid) (next : RequestRow → Transaction) : Transaction :=
  lockRequest requestId fun row =>
    match row with
    | none => raise (.lookupError "Unknown API request")
    | some row => next row

/-- The write of a row and `_record` of it. -/
def saveRecord (S : Settings) (requestId : Uuid) (row : RequestRow) : Transaction :=
  match record S row with
  | .error e => raise e
  | .ok row => save (fun db => db.putRequest requestId row) (.request row)

/-- A row that may still be claimed or finished. -/
def isOpen (state : RequestState) : Bool :=
  match state with
  | .pending | .running => true
  | _ => false

/-- The row that `claim` leaves of one that is open. -/
def claimed (S : Settings) (row : RequestRow) (hasCleanup : Bool) (now delay : Time) : RequestRow :=
  if hasCleanup then
    { row with state := .blocked, lastError := some "Task failure cleanup owns this invocation" }
  else if S.maxAttempts ≤ row.attempts then
    { row with
      state := .blocked
      lastError := if isText row.lastError then row.lastError
        else some "API recovery attempt limit reached" }
  else
    { row with state := .running, attempts := row.attempts + 1, nextAttemptAt := now + delay }

/-- `RequestStore.claim`. -/
def claim (S : Settings) (requestId : Uuid) (now recoveryDelay : Time) : Transaction :=
  required requestId fun row =>
    if isOpen row.state = false then .ret ((record S row).map .request)
    else .select fun db =>
      saveRecord S requestId
        (claimed S row (db.cleanups.get row.taskId).isSome now recoveryDelay)

/-- The attempt that a record belongs to is the current one. -/
def isCurrent (row record : RequestRow) : Bool :=
  isOpen record.state && decide (row.state = record.state) &&
    decide (row.attempts = record.attempts)

/-- `RequestStore.finish`. -/
def finish (S : Settings) (record : RequestRow) (state : RequestState) (error : Option String)
    (now delay : Time) : Transaction :=
  if state ∉ [.pending, .applied, .rejected, .blocked] then
    raise (.valueError "Invalid API request transition")
  else required record.command.requestId fun row =>
    if isCurrent row record = false then
      raise (.sessionConflict "API request attempt was superseded")
    else saveRecord S record.command.requestId
      { row with state, lastError := error, nextAttemptAt := now + delay }

/-- `RequestStore.resolve_applied`. -/
def resolveApplied (record : RequestRow) : Transaction :=
  required record.command.requestId fun row =>
    if row.state ≠ .blocked ∨ row.attempts ≠ record.attempts then
      raise (.sessionConflict "Blocked request was superseded")
    else save
      (fun db => db.putRequest record.command.requestId { row with state := .applied }) .done

/-- `RequestStore.defer_busy`. -/
def deferBusy (requestId : Uuid) (now delay : Time) : Transaction :=
  required requestId fun row =>
    if isOpen row.state = false then .ret (.ok .done)
    else save (fun db => db.putRequest requestId { row with nextAttemptAt := now + delay }) .done

/-! ## The admission of a session

`Session.Admission` has the same transactions as one step each, on a row without the columns that a
session's run does not look at. -/

/-- The columns of a request that a session's run looks at. -/
def ofRow (row : RequestRow) : Session.RequestRow :=
  ⟨row.command, row.targetNode, row.baseCheckpointId.getD 0, row.state, row.attempts⟩

variable {S : Settings} {H : Session.Host} {row record : RequestRow}

/-- The row that a session's `claim` leaves is that of the transaction. -/
theorem ofRow_claimed {tables : Session.Tables} {hasCleanup : Bool}
    (hsettings : S.maxAttempts = H.maxAttempts)
    (hcleanup : hasCleanup = true ↔ row.command.turn.activeTaskId ∈ tables.cleanups)
    (now delay : Time) :
    ofRow (claimed S row hasCleanup now delay) = Session.claim H tables (ofRow row) := by
  unfold claimed Session.claim Session.claimedState ofRow
  by_cases hclean : hasCleanup = true
  · simp [hclean, hcleanup.mp hclean]
  · have hnot : row.command.turn.activeTaskId ∉ tables.cleanups := fun h => hclean (hcleanup.mpr h)
    by_cases hlimit : S.maxAttempts ≤ row.attempts
    · simp [hclean, hnot, hlimit, ← hsettings]
    · simp [hclean, hnot, hlimit, ← hsettings]

/-- A record is current for the transaction when a session's `finish` does not refuse it. -/
theorem isCurrent_iff : isCurrent row record = true ↔
    ¬(((ofRow record).state ≠ .pending ∧ (ofRow record).state ≠ .running) ∨
      (ofRow row).state ≠ (ofRow record).state ∨
      (ofRow row).attempts ≠ (ofRow record).attempts) := by
  unfold isCurrent isOpen ofRow
  cases hstate : record.state <;> simp

/-- Both compare the same columns of a Task with the turn of a request. -/
theorem sameIdentity_startTask (stored turn : TaskTurn) :
    sameIdentity (startTask stored) turn = Session.sameIdentity stored turn := rfl

end RequestStore

end ExAgent.Stores
