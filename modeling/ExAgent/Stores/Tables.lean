import ExAgent.Lib.Locking
import ExAgent.Session.Admission

/-!
# The tables that the stores share

The rows of `agent_tasks`, `agent_session_locks`, `agent_api_requests`, `agent_failure_cleanups` and
`agent_executor_bindings`, the messages and the events of Tasks, and the writes the transactions
make to them. The primary keys and the two unique indexes that arbitrate between transactions are
part of the inserts: an insert is `none` when one of them refuses it.

The columns that no transaction of the stores reads or compares are left out: who made or changed a
row and when, and the version of a Task.
-/

namespace ExAgent.Stores

open Lib ExAgent.Graph
open Session (ApiRequest ApiInput RequestState)

/-! ## Rows -/

/-- A row of `agent_tasks`. -/
structure TaskRow where
  userId : String
  projectId : String
  sessionId : Uuid
  inputMessageId : Uuid
  userMessage : String
  status : TaskStatus
  executionId : Option Uuid := none
  currentInterrupt : Option Dict := none
  terminalMessage : Option String := none
deriving DecidableEq

/-- A row of `agent_session_locks`; its key is the session. -/
structure LockRow where
  activeTaskId : Uuid
  executionId : Option Uuid := none
  locked : Bool := true
deriving DecidableEq

/-- A row of `agent_api_requests`, which is also a `RequestRecord`. -/
structure RequestRow where
  taskId : Uuid
  sessionId : Uuid
  command : ApiRequest
  fingerprint : Sha256
  targetNode : Node
  baseCheckpointId : Option ℕ
  state : RequestState := .pending
  attempts : ℕ := 0
  nextAttemptAt : Time
  lastError : Option String := none
deriving DecidableEq

/-- The states of a cleanup. -/
inductive CleanupState
  | pending
  | blocked
  | done
deriving DecidableEq

/-- `executor_status`: the proof that nothing runs for the Task any more, or another status of the
Executor. -/
inductive ExecutorStatus
  | alreadyTerminal
  | notRequired
  | succeeded
  | failed
  | cancelled
  | other (text : String)
deriving DecidableEq

/-- What a cleanup was made for. -/
inductive FailureSource
  | api (requestId : Uuid)
  | worker (namespaceName : String) (commandId eventId : Uuid)
deriving DecidableEq

/-- What an operator asks for. -/
inductive OperatorAction
  | retry
  | finalize
deriving DecidableEq

/-- The last operator request of a cleanup. -/
structure Operation where
  id : Uuid
  action : OperatorAction
  hash : Sha256
  reason : String
  actor : String
deriving DecidableEq

/-- A row of `agent_failure_cleanups`. -/
structure CleanupRow where
  taskId : Uuid
  sessionId : Uuid
  turn : TaskTurn
  source : FailureSource
  reason : String
  state : CleanupState := .pending
  version : ℕ := 1
  attempts : ℕ := 0
  nextAttemptAt : Time
  lastError : Option String := none
  executionId : Option Uuid
  executorStatus : Option ExecutorStatus
  preserveTerminal : Bool
  finalStatus : TaskStatus
  message : Option String
  lastOperation : Option Operation := none
deriving DecidableEq

/-- `touch`. -/
def CleanupRow.touch (row : CleanupRow) : CleanupRow := { row with version := row.version + 1 }

/-- The author of a message. -/
inductive Role
  | user
  | assistant
deriving DecidableEq

/-- `metadata_json` of a message. -/
inductive Metadata
  | dict (d : Dict)
  | failure (executionId : Option Uuid) (source : FailureSource) (status : Option ExecutorStatus)
deriving DecidableEq

/-- A row of `agent_messages`. The key of an assistant's message is generated. -/
structure MessageRow where
  id : Option Uuid := none
  taskId : Uuid
  role : Role
  content : String
  metadata : Option Metadata := none
deriving DecidableEq

/-- A row of `agent_task_events`, by `event_type` and `payload`. -/
inductive TaskEvent
  | accepted (taskId : Uuid) (status : TaskStatus)
  | statusChanged (taskId : Uuid) (status : TaskStatus) (payload : Option Dict)
  | projected (taskId : Uuid) (status : TaskStatus) (interruptCleared : Bool)
  | interrupted (taskId : Uuid) (payload : Dict)
  | completed (taskId : Uuid) (status : TaskStatus)
      (failure : Option (FailureSource × Option ExecutorStatus))
  | failureCleanupPending (taskId : Uuid) (source : FailureSource) (reason : String)
  | failureCleanupOperatorRequested (taskId : Uuid) (operation : Operation)
      (previousError : Option String) (version : ℕ)
deriving DecidableEq

/-- The tables. -/
structure Db where
  tasks : Table Uuid TaskRow := .empty
  locks : Table Uuid LockRow := .empty
  requests : Table Uuid RequestRow := .empty
  cleanups : Table Uuid CleanupRow := .empty
  bindings : Table Uuid Binding := .empty
  messages : List MessageRow := []
  events : List TaskEvent := []

/-- What a transaction can lock. -/
inductive RowKey
  | task (id : Uuid)
  | lock (sessionId : Uuid)
  | request (id : Uuid)
  | cleanup (taskId : Uuid)
  | binding (taskId : Uuid)
deriving DecidableEq

/-- A row of one of the tables. -/
inductive Row
  | task (r : TaskRow)
  | lock (r : LockRow)
  | request (r : RequestRow)
  | cleanup (r : CleanupRow)
  | binding (r : Binding)

/-- The row at a key. -/
def Db.row (db : Db) : RowKey → Option Row
  | .task id => (db.tasks.get id).map .task
  | .lock sessionId => (db.locks.get sessionId).map .lock
  | .request id => (db.requests.get id).map .request
  | .cleanup taskId => (db.cleanups.get taskId).map .cleanup
  | .binding taskId => (db.bindings.get taskId).map .binding

/-! ## Writes -/

namespace Db

/-- `UPDATE agent_tasks` of a locked row. -/
def putTask (db : Db) (id : Uuid) (row : TaskRow) : Db :=
  { db with tasks := db.tasks.modifyAt id fun _ => row }

/-- `UPDATE agent_session_locks` of a locked row. -/
def putLock (db : Db) (sessionId : Uuid) (row : LockRow) : Db :=
  { db with locks := db.locks.modifyAt sessionId fun _ => row }

/-- `UPDATE agent_api_requests` of a locked row. -/
def putRequest (db : Db) (id : Uuid) (row : RequestRow) : Db :=
  { db with requests := db.requests.modifyAt id fun _ => row }

/-- `UPDATE agent_failure_cleanups` of a locked row. -/
def putCleanup (db : Db) (taskId : Uuid) (row : CleanupRow) : Db :=
  { db with cleanups := db.cleanups.modifyAt taskId fun _ => row }

/-- `UPDATE agent_executor_bindings` of a locked row. -/
def putBinding (db : Db) (taskId : Uuid) (row : Binding) : Db :=
  { db with bindings := db.bindings.modifyAt taskId fun _ => row }

/-- `UPDATE agent_api_requests SET state = 'COMPENSATED'` of the locked rows. -/
def compensate (db : Db) (ids : List Uuid) : Db :=
  { db with
    requests := db.requests.modify fun id row =>
      if id ∈ ids then { row with state := .compensated } else row }

/-- `DELETE FROM agent_session_locks` of the locked rows. -/
def deleteLocks (db : Db) (sessionIds : List Uuid) : Db :=
  { db with locks := db.locks.deleteKeys sessionIds }

/-- `INSERT INTO agent_messages` under a generated key. -/
def addMessage (db : Db) (message : MessageRow) : Db :=
  { db with messages := db.messages ++ [message] }

/-- `INSERT INTO agent_task_events`. -/
def addEvent (db : Db) (event : TaskEvent) : Db := { db with events := db.events ++ [event] }

/-- `INSERT INTO agent_messages` under a given key. -/
def insertMessage (db : Db) (id : Uuid) (message : MessageRow) : Option Db :=
  if db.messages.any fun m => m.id = some id then none
  else some (db.addMessage { message with id := some id })

/-- `INSERT INTO agent_tasks`. -/
def insertTask (db : Db) (id : Uuid) (row : TaskRow) : Option Db :=
  (db.tasks.insert id row).map fun tasks => { db with tasks }

/-- A request that is `PENDING`, `RUNNING` or `BLOCKED` in the session. -/
def activeRequest? (db : Db) (sessionId : Uuid) : Option RequestRow :=
  (db.requests.entries.find? fun e =>
    decide (e.2.sessionId = sessionId) && e.2.state.isActive).map Prod.snd

/-- `INSERT INTO agent_api_requests`, with the index `uq_agent_api_active_session`. -/
def insertRequest (db : Db) (id : Uuid) (row : RequestRow) : Option Db :=
  match db.activeRequest? row.sessionId with
  | some _ => none
  | none => (db.requests.insert id row).map fun requests => { db with requests }

/-- `INSERT INTO agent_failure_cleanups`. -/
def insertCleanup (db : Db) (taskId : Uuid) (row : CleanupRow) : Option Db :=
  (db.cleanups.insert taskId row).map fun cleanups => { db with cleanups }

/-- `INSERT INTO agent_executor_bindings`. -/
def insertBinding (db : Db) (taskId : Uuid) (row : Binding) : Option Db :=
  (db.bindings.insert taskId row).map fun bindings => { db with bindings }

/-- `INSERT INTO agent_session_locks`; `active_task_id` is unique too. -/
def insertLock (db : Db) (sessionId : Uuid) (row : LockRow) : Option Db :=
  if db.locks.entries.any fun e => e.2.activeTaskId = row.activeTaskId then none
  else (db.locks.insert sessionId row).map fun locks => { db with locks }

/-! ## What the inserts do -/

variable {db db' : Db}

/-- An inserted Task is new, and no other row changes. -/
theorem insertTask_spec {id : Uuid} {row : TaskRow} (h : db.insertTask id row = some db') :
    db.tasks.get id = none ∧ (∀ k, db'.tasks.get k = if k = id then some row else db.tasks.get k) ∧
      db' = { db with tasks := db'.tasks } := by
  obtain ⟨tasks, hi, rfl⟩ := Option.map_eq_some_iff.mp h
  obtain ⟨hnone, hget⟩ := Table.get_of_insert hi
  exact ⟨hnone, hget, rfl⟩

/-- An inserted cleanup is new, and no other row changes. -/
theorem insertCleanup_spec {taskId : Uuid} {row : CleanupRow}
    (h : db.insertCleanup taskId row = some db') :
    db.cleanups.get taskId = none ∧
      (∀ k, db'.cleanups.get k = if k = taskId then some row else db.cleanups.get k) ∧
      db' = { db with cleanups := db'.cleanups } := by
  obtain ⟨cleanups, hi, rfl⟩ := Option.map_eq_some_iff.mp h
  obtain ⟨hnone, hget⟩ := Table.get_of_insert hi
  exact ⟨hnone, hget, rfl⟩

/-- An inserted binding is new, and no other row changes. -/
theorem insertBinding_spec {taskId : Uuid} {row : Binding}
    (h : db.insertBinding taskId row = some db') :
    db.bindings.get taskId = none ∧
      (∀ k, db'.bindings.get k = if k = taskId then some row else db.bindings.get k) ∧
      db' = { db with bindings := db'.bindings } := by
  obtain ⟨bindings, hi, rfl⟩ := Option.map_eq_some_iff.mp h
  obtain ⟨hnone, hget⟩ := Table.get_of_insert hi
  exact ⟨hnone, hget, rfl⟩

/-- An inserted Session lock is new, and no other row changes. -/
theorem insertLock_spec {sessionId : Uuid} {row : LockRow}
    (h : db.insertLock sessionId row = some db') :
    db.locks.get sessionId = none ∧
      (∀ k, db'.locks.get k = if k = sessionId then some row else db.locks.get k) ∧
      db' = { db with locks := db'.locks } := by
  unfold insertLock at h
  split at h
  · cases h
  · obtain ⟨locks, hi, rfl⟩ := Option.map_eq_some_iff.mp h
    obtain ⟨hnone, hget⟩ := Table.get_of_insert hi
    exact ⟨hnone, hget, rfl⟩

/-- No request of the session is active. -/
theorem activeRequest?_eq_none {sessionId : Uuid} :
    db.activeRequest? sessionId = none ↔
      ∀ id row, db.requests.get id = some row → row.sessionId = sessionId →
        row.state.isActive = false := by
  unfold activeRequest?
  rw [Option.map_eq_none_iff, List.find?_eq_none]
  constructor
  · intro h id row hrow hs
    have := h (id, row) (Table.mem_entries_iff.mpr hrow)
    simpa [hs] using this
  · rintro h ⟨id, row⟩ he
    have hrow := Table.mem_entries_iff.mp he
    by_cases hs : row.sessionId = sessionId
    · simp [h id row hrow hs]
    · simp [hs]

/-- An inserted request is new and the only active one of its Session, and no other row changes. -/
theorem insertRequest_spec {id : Uuid} {row : RequestRow}
    (h : db.insertRequest id row = some db') :
    db.activeRequest? row.sessionId = none ∧ db.requests.get id = none ∧
      (∀ k, db'.requests.get k = if k = id then some row else db.requests.get k) ∧
      db' = { db with requests := db'.requests } := by
  unfold insertRequest at h
  split at h
  · cases h
  · rename_i hactive
    obtain ⟨requests, hi, rfl⟩ := Option.map_eq_some_iff.mp h
    obtain ⟨hnone, hget⟩ := Table.get_of_insert hi
    exact ⟨hactive, hnone, hget, rfl⟩

/-- An inserted message changes the messages only. -/
theorem insertMessage_spec {id : Uuid} {message : MessageRow}
    (h : db.insertMessage id message = some db') :
    db' = { db with messages := db'.messages } := by
  unfold insertMessage at h
  split at h
  · cases h
  · obtain rfl := Option.some.inj h
    rfl

/-! ## Which rows the writes change -/

section Rows

variable {k : RowKey} {r : Row}

/-- A Task that is written leaves the other rows. -/
theorem row_putTask {id : Uuid} {row : TaskRow} (hk : k ≠ .task id) :
    (db.putTask id row).row k = db.row k := by
  cases k with
  | task i =>
    have hi : i ≠ id := fun h => hk (h ▸ rfl)
    simp [Db.row, putTask, hi]
  | _ => rfl

/-- A Session lock that is written leaves the other rows. -/
theorem row_putLock {id : Uuid} {row : LockRow} (hk : k ≠ .lock id) :
    (db.putLock id row).row k = db.row k := by
  cases k with
  | lock i =>
    have hi : i ≠ id := fun h => hk (h ▸ rfl)
    simp [Db.row, putLock, hi]
  | _ => rfl

/-- A request that is written leaves the other rows. -/
theorem row_putRequest {id : Uuid} {row : RequestRow} (hk : k ≠ .request id) :
    (db.putRequest id row).row k = db.row k := by
  cases k with
  | request i =>
    have hi : i ≠ id := fun h => hk (h ▸ rfl)
    simp [Db.row, putRequest, hi]
  | _ => rfl

/-- A cleanup that is written leaves the other rows. -/
theorem row_putCleanup {id : Uuid} {row : CleanupRow} (hk : k ≠ .cleanup id) :
    (db.putCleanup id row).row k = db.row k := by
  cases k with
  | cleanup i =>
    have hi : i ≠ id := fun h => hk (h ▸ rfl)
    simp [Db.row, putCleanup, hi]
  | _ => rfl

/-- A binding that is written leaves the other rows. -/
theorem row_putBinding {id : Uuid} {row : Binding} (hk : k ≠ .binding id) :
    (db.putBinding id row).row k = db.row k := by
  cases k with
  | binding i =>
    have hi : i ≠ id := fun h => hk (h ▸ rfl)
    simp [Db.row, putBinding, hi]
  | _ => rfl

/-- An event leaves every row. -/
theorem row_addEvent (event : TaskEvent) : (db.addEvent event).row k = db.row k := by
  cases k <;> rfl

/-- The compensation of requests leaves the other rows. -/
theorem row_compensate {ids : List Uuid} (hk : ∀ id ∈ ids, k ≠ .request id) :
    (db.compensate ids).row k = db.row k := by
  cases k with
  | request i =>
    have hi : i ∉ ids := fun h => hk i h rfl
    simp [Db.row, compensate, hi]
  | _ => rfl

/-- Deleted Session locks leave the other rows. -/
theorem row_deleteLocks {ids : List Uuid} (hk : ∀ id ∈ ids, k ≠ .lock id) :
    (db.deleteLocks ids).row k = db.row k := by
  cases k with
  | lock i =>
    have hi : i ∉ ids := fun h => hk i h rfl
    simp [Db.row, deleteLocks, hi]
  | _ => rfl

/-- An inserted Session lock leaves the rows there are. -/
theorem row_insertLock {id : Uuid} {row : LockRow} (h : db.insertLock id row = some db')
    (hr : db.row k = some r) : db'.row k = some r := by
  obtain ⟨hnone, hget, heq⟩ := insertLock_spec h
  cases k with
  | lock i =>
    have hi : i ≠ id := by
      rintro rfl
      simp [Db.row, hnone] at hr
    simpa [Db.row, hget, hi] using hr
  | _ => rw [heq]; exact hr

/-- An inserted request leaves the rows there are. -/
theorem row_insertRequest {id : Uuid} {row : RequestRow} (h : db.insertRequest id row = some db')
    (hr : db.row k = some r) : db'.row k = some r := by
  obtain ⟨-, hnone, hget, heq⟩ := insertRequest_spec h
  cases k with
  | request i =>
    have hi : i ≠ id := by
      rintro rfl
      simp [Db.row, hnone] at hr
    simpa [Db.row, hget, hi] using hr
  | _ => rw [heq]; exact hr

/-- An inserted cleanup leaves the rows there are. -/
theorem row_insertCleanup {id : Uuid} {row : CleanupRow} (h : db.insertCleanup id row = some db')
    (hr : db.row k = some r) : db'.row k = some r := by
  obtain ⟨hnone, hget, heq⟩ := insertCleanup_spec h
  cases k with
  | cleanup i =>
    have hi : i ≠ id := by
      rintro rfl
      simp [Db.row, hnone] at hr
    simpa [Db.row, hget, hi] using hr
  | _ => rw [heq]; exact hr

/-- An inserted binding leaves the rows there are. -/
theorem row_insertBinding {id : Uuid} {row : Binding} (h : db.insertBinding id row = some db')
    (hr : db.row k = some r) : db'.row k = some r := by
  obtain ⟨hnone, hget, heq⟩ := insertBinding_spec h
  cases k with
  | binding i =>
    have hi : i ≠ id := by
      rintro rfl
      simp [Db.row, hnone] at hr
    simpa [Db.row, hget, hi] using hr
  | _ => rw [heq]; exact hr

end Rows

end Db

/-- A text column that is not `NULL` and not empty, as Python tests it. -/
def isText (text : Option String) : Bool := text.any fun t => t ≠ ""

/-- `text[:2000]`. -/
def clip (text : String) : String := String.ofList (text.toList.take 2000)

end ExAgent.Stores
