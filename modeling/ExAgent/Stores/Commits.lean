import ExAgent.Stores.System

/-!
# What the transactions commit

`Commit` lists what a commit of each call does to the tables, with what it may rely on there: the
rows that it locked are as it read them, and what it inserts was not there. What a transaction read
without a lock does not appear, since it can be out of date by the time of the commit. The one
exception is `FailureStore.finish`. Its `UPDATE` sees the active requests of the Task in an earlier
snapshot, and no request of the Task can become active between that statement and the commit,
because the Task is locked all the while: a request of an existing Task is inserted under the lock
of its Task only, and no request becomes active again.

`meets` proves that the transactions, statement by statement, do nothing else; `moved` is the result
for a run. The rest of the development about the stores uses these two and no program.
-/

namespace ExAgent.Stores

open Lib ExAgent.Graph
open Session (ApiRequest ApiInput ApiSignal RequestState)

/-- What a call does to the row of a request, and what it returns. -/
inductive RequestChange (S : Settings) : Op → Result → RequestRow → RequestRow → Prop
  | claim {row : RequestRow} {id : Uuid} {now delay : Time} (hasCleanup : Bool)
      (hopen : RequestStore.isOpen row.state = true) :
      RequestChange S (.claimRequest id now delay)
        (.ok (.request (RequestStore.claimed S row hasCleanup now delay))) row
        (RequestStore.claimed S row hasCleanup now delay)
  | finish {row record : RequestRow} {state : RequestState} {error : Option String}
      {now delay : Time} (hstate : state ∈ [RequestState.pending, .applied, .rejected, .blocked])
      (hcurrent : RequestStore.isCurrent row record = true) :
      RequestChange S (.finishRequest record state error now delay)
        (.ok (.request { row with state, lastError := error, nextAttemptAt := now + delay })) row
        { row with state, lastError := error, nextAttemptAt := now + delay }
  | resolve {row record : RequestRow} (hstate : row.state = .blocked)
      (hattempts : row.attempts = record.attempts) :
      RequestChange S (.resolveApplied record) (.ok .done) row { row with state := .applied }
  | defer {row : RequestRow} {id : Uuid} {now delay : Time}
      (hopen : RequestStore.isOpen row.state = true) :
      RequestChange S (.deferRequest id now delay) (.ok .done) row
        { row with nextAttemptAt := now + delay }

/-- The request a call of `RequestStore` is about. -/
def Op.requestId? : Op → Option Uuid
  | .claimRequest id .. | .deferRequest id .. => some id
  | .finishRequest record .. | .resolveApplied record => some record.command.requestId
  | _ => none

/-- What a call does to the row of a cleanup, when it writes no other row, and what it returns. -/
inductive CleanupChange : Op → Uuid → Result → CleanupRow → CleanupRow → Prop
  | claim {row : CleanupRow} {id : Uuid} {maxAttempts : ℕ} {now delay : Time}
      (hstate : row.state = .pending) :
      CleanupChange (.claimCleanup id maxAttempts now delay) id
        (.ok (.cleanup (FailureStore.claimed row maxAttempts now delay))) row
        (FailureStore.claimed row maxAttempts now delay)
  | deferBusy {row : CleanupRow} {id : Uuid} {now delay : Time} (hstate : row.state = .pending) :
      CleanupChange (.deferCleanup id now delay) id (.ok .done) row
        { row with nextAttemptAt := now + delay, version := row.version + 1 }
  | retry {row : CleanupRow} {id : Uuid} {operation : Operation} {version : ℕ} {now : Time}
      (hstate : row.state = .blocked) (hversion : row.version = version) :
      CleanupChange (.retryBlocked id operation version now) id
        (.ok (.operation (FailureStore.retried row operation now) false)) row
        (FailureStore.retried row operation now)
  | confirm {row record row' : CleanupRow} {claim : Option ℕ} {executionId : Option Uuid}
      {status : ExecutorStatus} {message : String}
      (hproof : FailureStore.ExecutorStatus.isProof status = true) (hstate : row.state = .pending)
      (hattempts : row.attempts = record.attempts)
      (hrow' : row' = { row with
        executionId, executorStatus := some status, message := some message }.touch) :
      CleanupChange (.fenced claim record (.confirm executionId status message)) record.taskId
        (.ok (.cleanup row')) row row'
  | defer {row record : CleanupRow} {claim : Option ℕ} {error : String} {now delay : Time}
      {blocked : Bool} (hstate : row.state = .pending)
        (hattempts : row.attempts = record.attempts) :
      CleanupChange (.fenced claim record (.defer error now delay blocked))
        record.taskId (.ok .done)
        row
        { row with
          state := if blocked then .blocked else .pending
          lastError := some (clip error)
          nextAttemptAt := now + delay
          version := row.version + 1 }

/-- What a call does to the row of a Task, when it is not about a cleanup, and whether it deletes
the Task's session lock. -/
inductive TaskChange : Op → Uuid → TaskRow → TaskRow → Bool → Prop
  | updateStatus {id : Uuid} {task : TaskRow} {status : TaskStatus} {payload : Option Dict} :
      TaskChange (.updateStatus id status payload) id task { task with status } false
  | recordInterrupt {id : Uuid} {task : TaskRow} {payload : Dict} :
      TaskChange (.recordInterrupt id payload) id task
        { task with currentInterrupt := some payload, status := interruptStatus payload } false
  | clearInterrupt {id : Uuid} {task : TaskRow} :
      TaskChange (.clearInterrupt id) id task { task with currentInterrupt := none } false
  | commitMessage {id : Uuid} {task : TaskRow} {content : String} {status : TaskStatus}
      {metadata : Dict} :
      TaskChange (.commitMessage id content status metadata) id task
        { task with status, terminalMessage := some content, currentInterrupt := none }
        status.isTerminal
  | project {id : Uuid} {task : TaskRow} {status : TaskStatus} {interrupt : Option Dict}
      (hopen : task.status.isTerminal = false) (hstatus : status.isTerminal = false) :
      TaskChange (.project id status interrupt) id task
        { task with status, currentInterrupt := interrupt } false
  | terminal {id : Uuid} {task : TaskRow} {status : TaskStatus} {message : String} {metadata : Dict}
      (hopen : task.status.isTerminal = false) (hstatus : status.isTerminal = true) :
      TaskChange (.terminal id status message metadata) id task
        { task with status, terminalMessage := some message, currentInterrupt := none } true

/-- The session locks of a Task, all of them held. -/
def LocksOf (db : Db) (held : List RowKey) (taskId : Uuid) (sessionIds : List Uuid) : Prop :=
  (∀ sessionId ∈ sessionIds, RowKey.lock sessionId ∈ held) ∧
    ∀ sessionId, sessionId ∈ sessionIds ↔
      ∃ lock, db.locks.get sessionId = some lock ∧ lock.activeTaskId = taskId

/-- The active requests of a Task, all of them held. -/
def ActiveOf (db : Db) (held : List RowKey) (taskId : Uuid) (ids : List Uuid) : Prop :=
  (∀ id ∈ ids, RowKey.request id ∈ held) ∧
    ∀ id, id ∈ ids ↔
      ∃ row, db.requests.get id = some row ∧ row.taskId = taskId ∧ row.state.isActive = true

/-- The session lock of a Task that is bound, if it is there. -/
def boundLock (db : Db) (sessionId executionId : Uuid) : Option LockRow → Db
  | none => db
  | some lock => db.putLock sessionId { lock with executionId := some executionId }

/-- What a commit does to the tables, by its call, the rows it holds and its result. -/
inductive Commit (S : Settings) : Op → List RowKey → Result → Db → Db → Prop
  /-- `accept` of a `START`. -/
  | start {held : List RowKey} {db db' : Db} {command : ApiRequest} {node : Node} {base : Option ℕ}
      {now : Time} (hinput : command.input = .start)
      (hdb : ((RequestStore.insertStart command.turn db).bind fun db =>
        db.insertRequest command.requestId (RequestStore.admitted S command node base now)) =
          some db') :
      Commit S (.accept command node base now) held
        (.ok (.request (RequestStore.admitted S command node base now))) db db'
  /-- `accept` of an input for a Task, which is not terminal. -/
  | resume {held : List RowKey} {db db' : Db} {command : ApiRequest} {node : Node} {base : Option ℕ}
      {now : Time} {task : TaskRow} (hinput : command.input ≠ .start)
      (hheld : .task command.turn.activeTaskId ∈ held)
      (htask : db.tasks.get command.turn.activeTaskId = some task)
      (hsame : RequestStore.sameIdentity task command.turn = true)
      (hopen : task.status.isTerminal = false)
      (hdb : db.insertRequest command.requestId (RequestStore.admitted S command node base now) =
        some db') :
      Commit S (.accept command node base now) held
        (.ok (.request (RequestStore.admitted S command node base now))) db db'
  /-- The other calls of `RequestStore`. -/
  | request {op : Op} {held : List RowKey} {result : Result} {db : Db} {id : Uuid}
      {row row' : RequestRow} (hid : op.requestId? = some id) (hheld : .request id ∈ held)
      (hrow : db.requests.get id = some row) (hchange : RequestChange S op result row row') :
      Commit S op held result db (db.putRequest id row')
  /-- `ensure` for a terminal Task. -/
  | ensureTerminal {held : List RowKey} {db db' : Db} {taskId sessionId : Uuid}
      {source : FailureSource} {reason : String} {executionId : Option Uuid} {now : Time}
      {task : TaskRow} {turn : TaskTurn} {row : CleanupRow} (hheld : .task taskId ∈ held)
      (htask : db.tasks.get taskId = some task) (hterminal : task.status.isTerminal = true)
      (htext : isText task.terminalMessage = true)
      (hrow : row = FailureStore.opened taskId sessionId task turn source reason executionId now)
      (hdb : db.insertCleanup taskId row = some db') :
      Commit S (.ensure taskId sessionId source reason executionId now) held (.ok (.cleanup row))
        db db'
  /-- `ensure` for another Task. -/
  | ensure {held : List RowKey} {db db₁ db₂ : Db} {taskId sessionId : Uuid}
      {source : FailureSource} {reason : String} {executionId : Option Uuid} {now : Time}
      {task : TaskRow} {turn : TaskTurn} {row : CleanupRow} {lock : Option LockRow}
      (hheld : .task taskId ∈ held) (htask : db.tasks.get taskId = some task)
      (hopen : task.status.isTerminal = false)
      (hlock : ∀ l, lock = some l → l.activeTaskId = taskId ∧ .lock sessionId ∈ held ∧
        db.locks.get sessionId = some l)
      (hrow : row = FailureStore.opened taskId sessionId task turn source reason executionId now)
      (hdb₁ : db.insertCleanup taskId row = some db₁)
      (hdb₂ : FailureStore.heldLock row lock db₁ = some db₂) :
      Commit S (.ensure taskId sessionId source reason executionId now) held (.ok (.cleanup row))
        db (db₂.addEvent (.failureCleanupPending taskId source row.reason))
  /-- The calls of `FailureStore` that write one cleanup. -/
  | cleanup {op : Op} {held : List RowKey} {result : Result} {db : Db} {id : Uuid}
      {row row' : CleanupRow} {events : List TaskEvent} (hheld : .cleanup id ∈ held)
      (hrow : db.cleanups.get id = some row) (hchange : CleanupChange op id result row row') :
      Commit S op held result db { db.putCleanup id row' with events := db.events ++ events }
  /-- `bind_execution`. -/
  | bindExecution {held : List RowKey} {db : Db} {claim : Option ℕ} {record row row' : CleanupRow}
      {executionId : Uuid} {task : TaskRow} {lock : LockRow}
      (hheld : .cleanup record.taskId ∈ held ∧ .task record.taskId ∈ held ∧
        .lock row.sessionId ∈ held)
      (hrow : db.cleanups.get record.taskId = some row) (hstate : row.state = .pending)
      (hattempts : row.attempts = record.attempts)
      (hfor : FailureStore.isFor executionId row.executionId = true)
      (htask : db.tasks.get record.taskId = some task)
      (hlock : db.locks.get row.sessionId = some lock)
      (hrow' : row' = { row with executionId := some executionId }.touch) :
      Commit S (.fenced claim record (.bindExecution executionId)) held (.ok (.cleanup row')) db
        (((db.putCleanup record.taskId row').putTask record.taskId
          { task with executionId := some executionId }).putLock row.sessionId
          { lock with executionId := some executionId })
  /-- `finish` of a cleanup. -/
  | finish {held : List RowKey} {db : Db} {claim : Option ℕ} {record row row' : CleanupRow}
      {task : TaskRow} {ids sessionIds : List Uuid}
      (hheld : .cleanup record.taskId ∈ held ∧ .task record.taskId ∈ held)
      (hproof : record.executorStatus ≠ none ∧ isText record.message = true)
      (hrow : db.cleanups.get record.taskId = some row) (hstate : row.state = .pending)
      (hattempts : row.attempts = record.attempts) (htask : db.tasks.get record.taskId = some task)
      (hsame : task.status.isTerminal = true →
        task.status = row.finalStatus ∧ task.terminalMessage = row.message)
      (hids : ActiveOf db held record.taskId ids)
      (hlocks : LocksOf db held record.taskId sessionIds)
      (hrow' : row' = { row with state := .done, lastError := none }.touch) :
      Commit S (.fenced claim record .finish) held (.ok .done) db
        ((((FailureStore.settle record.taskId row task db).compensate ids).deleteLocks
          sessionIds).putCleanup record.taskId row')
  /-- The writers of one Task. -/
  | task {op : Op} {held : List RowKey} {db : Db} {id : Uuid} {task task' : TaskRow}
      {deletes : Bool} {sessionIds : List Uuid} {messages : List MessageRow}
        {events : List TaskEvent} (hheld : .task id ∈ held)
      (htask : db.tasks.get id = some task) (hchange : TaskChange op id task task' deletes)
      (hlocks : if deletes then LocksOf db held id sessionIds else sessionIds = []) :
      Commit S op held (.ok .done) db
        { db.putTask id task' with
          locks := db.locks.deleteKeys sessionIds
          messages := db.messages ++ messages
          events := db.events ++ events }
  /-- `lock_session`. -/
  | lockSession {held : List RowKey} {db db' : Db} {taskId : Uuid} {task : TaskRow}
      (hheld : .task taskId ∈ held) (htask : db.tasks.get taskId = some task)
      (hdb : db.insertLock task.sessionId { activeTaskId := taskId } = some db') :
      Commit S (.lockSession taskId) held (.ok .done) db db'
  /-- `binding` of a Task that has one. -/
  | binding {held : List RowKey} {db : Db} {taskId executionId : Uuid} {version : ℕ}
      {operationId : Option Uuid} {sequence : Option ℕ} {create : Bool} {binding : Binding}
      (hheld : .binding taskId ∈ held) :
      Commit S (.binding taskId executionId version operationId sequence create) held (.ok .done) db
        (db.putBinding taskId binding)
  /-- The first `binding` of a Task. -/
  | bind {held : List RowKey} {db db₁ : Db} {taskId executionId : Uuid} {version : ℕ}
      {operationId : Option Uuid} {sequence : Option ℕ} {create : Bool} {binding : Binding}
      {task : TaskRow} {lock : Option LockRow} (hheld : .task taskId ∈ held)
      (htask : db.tasks.get taskId = some task)
      (hlock : ∀ l, lock = some l → .lock task.sessionId ∈ held ∧
        db.locks.get task.sessionId = some l)
      (hdb₁ : (db.putTask taskId { task with executionId := some executionId }).insertBinding taskId
        binding = some db₁) :
      Commit S (.binding taskId executionId version operationId sequence create) held (.ok .done) db
        (boundLock db₁ task.sessionId executionId lock)

/-! ## Frames -/

section Frames

variable {S : Settings} {db db' : Db}

/-- What a `START` inserts. -/
theorem insertStart_spec {turn : TaskTurn} (h : RequestStore.insertStart turn db = some db') :
    db.tasks.get turn.activeTaskId = none ∧
      (∀ k, db'.tasks.get k =
        if k = turn.activeTaskId then some (RequestStore.startTask turn) else db.tasks.get k) ∧
      db' = { db with tasks := db'.tasks, messages := db'.messages, events := db'.events } := by
  unfold RequestStore.insertStart at h
  simp only [Option.bind_eq_bind, Option.bind_eq_some_iff] at h
  obtain ⟨db₁, h₁, db₂, h₂, h₃⟩ := h
  obtain ⟨hnone, hget, heq₁⟩ := Db.insertTask_spec h₁
  have heq₂ := Db.insertMessage_spec h₂
  obtain rfl := Option.some.inj h₃
  rw [heq₁] at heq₂
  refine ⟨hnone, ?_, ?_⟩
  · intro k
    rw [← hget k]
    show db₂.tasks.get k = db₁.tasks.get k
    rw [heq₂]
  · rw [heq₂]
    rfl

/-- A `START` keeps the rows that are there. -/
theorem row_insertStart {turn : TaskTurn} (h : RequestStore.insertStart turn db = some db')
    {k : RowKey} {r : Row} (hr : db.row k = some r) : db'.row k = some r := by
  obtain ⟨hnone, hget, heq⟩ := insertStart_spec h
  cases k with
  | task i =>
    have hi : i ≠ turn.activeTaskId := by
      rintro rfl
      simp [Db.row, hnone] at hr
    simpa [Db.row, hget, hi] using hr
  | _ => rw [heq]; exact hr

/-- A commit changes only rows it holds, besides inserting new ones. -/
theorem Commit.frames {op : Op} {held : List RowKey} {result : Result}
    (h : Commit S op held result db db') {k : RowKey} (hk : k ∉ held) {r : Row}
    (hr : db.row k = some r) : db'.row k = some r := by
  have hne : ∀ {j : RowKey}, j ∈ held → k ≠ j := fun hj hkj => hk (hkj ▸ hj)
  cases h with
  | start hinput hdb =>
    obtain ⟨db₁, h₁, h₂⟩ := Option.bind_eq_some_iff.mp hdb
    exact Db.row_insertRequest h₂ (row_insertStart h₁ hr)
  | resume hinput hheld htask hsame hopen hdb => exact Db.row_insertRequest hdb hr
  | request hid hheld hrow hchange => rwa [Db.row_putRequest (hne hheld)]
  | ensureTerminal hheld htask hterminal htext hrow hdb => exact Db.row_insertCleanup hdb hr
  | ensure hheld htask hopen hlock hrow hdb₁ hdb₂ =>
    rename_i lock
    have h₁ := Db.row_insertCleanup hdb₁ hr
    rw [Db.row_addEvent]
    cases lock with
    | none => exact Db.row_insertLock hdb₂ h₁
    | some l =>
      obtain rfl := Option.some.inj hdb₂
      subst hrow
      exact (Db.row_putLock (hne (hlock l rfl).2.1)).trans h₁
  | cleanup hheld hrow hchange => exact (Db.row_putCleanup (hne hheld)).trans hr
  | bindExecution hheld hrow hstate hattempts hfor htask hlock hrow' =>
    rwa [Db.row_putLock (hne hheld.2.2), Db.row_putTask (hne hheld.2.1),
      Db.row_putCleanup (hne hheld.1)]
  | finish hheld hproof hrow hstate hattempts htask hsame hids hlocks hrow' =>
    rw [Db.row_putCleanup (hne hheld.1),
      Db.row_deleteLocks fun id hid => hne (hlocks.1 id hid),
      Db.row_compensate fun id hid => hne (hids.1 id hid)]
    unfold FailureStore.settle
    split
    · exact hr
    · exact (Db.row_putTask (hne hheld.2)).trans hr
  | task hheld htask hchange hlocks =>
    rename_i id task task' deletes sessionIds messages events
    -- The locks that go with the end of a Task were taken before.
    have hs : ∀ sid ∈ sessionIds, k ≠ .lock sid := by
      intro sid hsid
      cases deletes with
      | true => exact hne (hlocks.1 sid hsid)
      | false =>
        rw [show sessionIds = [] from hlocks] at hsid
        simp at hsid
    have hdel : ((db.putTask id task').deleteLocks sessionIds).row k =
        (db.putTask id task').row k :=
      Db.row_deleteLocks hs
    exact (hdel.trans (Db.row_putTask (hne hheld))).trans hr
  | lockSession hheld htask hdb => exact Db.row_insertLock hdb hr
  | binding hheld => rwa [Db.row_putBinding (hne hheld)]
  | bind hheld htask hlock hdb₁ =>
    rename_i task lock
    have h₁ := Db.row_insertBinding hdb₁ ((Db.row_putTask (hne hheld)).trans hr)
    cases lock with
    | none => exact h₁
    | some l => exact (Db.row_putLock (hne (hlock l rfl).1)).trans h₁

end Frames

/-! ## The fate of a row -/

/-- What a commit does to the request under a key. -/
inductive RequestFate (S : Settings) (op : Op) (held : List RowKey) (result : Result) (db db' : Db)
    (id : Uuid) : Prop
  | same (h : db'.requests.get id = db.requests.get id)
  | admitted {command : ApiRequest} {node : Node} {base : Option ℕ} {now : Time}
      (hop : op = .accept command node base now) (hid : id = command.requestId)
      (hnone : db.requests.get id = none)
      (hidle : db.activeRequest? command.turn.sessionId = none)
      (hnew : db'.requests.get id = some (RequestStore.admitted S command node base now))
      (htask : db.tasks.get command.turn.activeTaskId = none ∨
        .task command.turn.activeTaskId ∈ held ∧ ∃ task,
          db.tasks.get command.turn.activeTaskId = some task ∧ task.status.isTerminal = false)
  | changed {row row' : RequestRow} (hop : op.requestId? = some id)
      (hrow : db.requests.get id = some row) (hnew : db'.requests.get id = some row')
      (hchange : RequestChange S op result row row')
  | compensated {claim : Option ℕ} {record : CleanupRow} {row : RequestRow}
      (hop : op = .fenced claim record .finish) (hrow : db.requests.get id = some row)
      (htask : row.taskId = record.taskId) (hactive : row.state.isActive = true)
      (hnew : db'.requests.get id = some { row with state := .compensated })

/-- What a commit does to the cleanup under a key. -/
inductive CleanupFate (op : Op) (result : Result) (db db' : Db) (id : Uuid) : Prop
  | same (h : db'.cleanups.get id = db.cleanups.get id)
  | opened {row : CleanupRow} {sessionId : Uuid} {source : FailureSource} {reason : String}
      {executionId : Option Uuid} {now : Time} {task : TaskRow} {turn : TaskTurn}
      (hop : op = .ensure id sessionId source reason executionId now)
      (hnone : db.cleanups.get id = none) (htask : db.tasks.get id = some task)
      (hnew : db'.cleanups.get id = some row)
      (hrow : row = FailureStore.opened id sessionId task turn source reason executionId now)
  | changed {row row' : CleanupRow} (hrow : db.cleanups.get id = some row)
      (hnew : db'.cleanups.get id = some row') (hchange : CleanupChange op id result row row')
  | bound {row : CleanupRow} {claim : Option ℕ} {record : CleanupRow} {executionId : Uuid}
      (hop : op = .fenced claim record (.bindExecution executionId)) (hid : id = record.taskId)
      (hrow : db.cleanups.get id = some row) (hstate : row.state = .pending)
      (hattempts : row.attempts = record.attempts)
      (hfor : FailureStore.isFor executionId row.executionId = true)
      (hnew : db'.cleanups.get id = some { row with executionId := some executionId }.touch)
  | finished {row : CleanupRow} {claim : Option ℕ} {record : CleanupRow}
      (hop : op = .fenced claim record .finish) (hid : id = record.taskId)
      (hrow : db.cleanups.get id = some row) (hstate : row.state = .pending)
      (hattempts : row.attempts = record.attempts)
      (hnew : db'.cleanups.get id = some { row with state := .done, lastError := none }.touch)

/-- What a commit does to the Task under a key. -/
inductive TaskFate (op : Op) (db db' : Db) (id : Uuid) : Prop
  | same (h : db'.tasks.get id = db.tasks.get id)
  | started {turn : TaskTurn} (hnone : db.tasks.get id = none)
      (hnew : db'.tasks.get id = some (RequestStore.startTask turn))
  | bound {task : TaskRow} {executionId : Uuid} (htask : db.tasks.get id = some task)
      (hnew : db'.tasks.get id = some { task with executionId := some executionId })
  | settled {task : TaskRow} {row : CleanupRow} {claim : Option ℕ} {record : CleanupRow}
      (hop : op = .fenced claim record .finish) (hid : id = record.taskId)
      (hrow : db.cleanups.get id = some row) (htask : db.tasks.get id = some task)
      (hopen : task.status.isTerminal = false)
      (hnew : db'.tasks.get id = some (FailureStore.settledTask row task))
  | changed {task task' : TaskRow} {deletes : Bool} (htask : db.tasks.get id = some task)
      (hnew : db'.tasks.get id = some task') (hchange : TaskChange op id task task' deletes)

/-- Where a session lock that is there after a commit comes from. -/
inductive LockFate (op : Op) (held : List RowKey) (db : Db) (sessionId : Uuid) (lock' : LockRow) :
    Prop
  | kept {lock : LockRow} (hlock : db.locks.get sessionId = some lock)
      (howner : lock'.activeTaskId = lock.activeTaskId)
  | ensured {task : TaskRow} (hheld : .task lock'.activeTaskId ∈ held)
      (htask : db.tasks.get lock'.activeTaskId = some task) (hopen : task.status.isTerminal = false)
  | locked {task : TaskRow} (hop : op = .lockSession lock'.activeTaskId)
      (hheld : .task lock'.activeTaskId ∈ held)
      (htask : db.tasks.get lock'.activeTaskId = some task) (hsession : task.sessionId = sessionId)
      (hnone : db.locks.get sessionId = none)

section Fates

variable {S : Settings} {db db' : Db} {op : Op} {held : List RowKey} {result : Result}

/-- The tables of requests after writes to other tables. -/
theorem settle_requests (taskId : Uuid) (row : CleanupRow) (task : TaskRow) (db : Db) :
    (FailureStore.settle taskId row task db).requests = db.requests := by
  unfold FailureStore.settle
  split <;> rfl

/-- Settling a Task leaves the cleanups. -/
theorem settle_cleanups (taskId : Uuid) (row : CleanupRow) (task : TaskRow) (db : Db) :
    (FailureStore.settle taskId row task db).cleanups = db.cleanups := by
  unfold FailureStore.settle
  split <;> rfl

/-- Settling a Task leaves the Session locks. -/
theorem settle_locks (taskId : Uuid) (row : CleanupRow) (task : TaskRow) (db : Db) :
    (FailureStore.settle taskId row task db).locks = db.locks := by
  unfold FailureStore.settle
  split <;> rfl

/-- The session lock of a cleanup is the only row it writes. -/
theorem heldLock_spec {row : CleanupRow} {lock : Option LockRow}
    (h : FailureStore.heldLock row lock db = some db') : db' = { db with locks := db'.locks } := by
  cases lock with
  | none => exact (Db.insertLock_spec h).2.2
  | some l =>
    obtain rfl := Option.some.inj h
    rfl

/-- A commit changes a request in one of the ways of `RequestFate`. -/
theorem Commit.request_fate (h : Commit S op held result db db') (id : Uuid) :
    RequestFate S op held result db db' id := by
  cases h with
  | @start _ _ _ command node base now hinput hdb =>
    obtain ⟨db₁, h₁, h₂⟩ := Option.bind_eq_some_iff.mp hdb
    obtain ⟨hnone, -, heq⟩ := insertStart_spec h₁
    obtain ⟨hidle, hfree, hget, -⟩ := Db.insertRequest_spec h₂
    have hreq : db₁.requests = db.requests := by rw [heq]
    -- A new request gets its own row, and the others keep theirs.
    by_cases hid : id = command.requestId
    · refine .admitted rfl hid ?_ ?_ (by rw [hget, if_pos hid]) (.inl hnone)
      · rw [hid, ← hreq]
        exact hfree
      · rw [Db.activeRequest?, ← hreq]
        exact hidle
    · exact .same (by rw [hget, if_neg hid, hreq])
  | @resume _ _ _ command node base now task hinput hheld htask hsame hopen hdb =>
    obtain ⟨hidle, hfree, hget, -⟩ := Db.insertRequest_spec hdb
    by_cases hid : id = command.requestId
    · exact .admitted rfl hid (hid ▸ hfree) hidle (by rw [hget, if_pos hid])
        (.inr ⟨hheld, task, htask, hopen⟩)
    · exact .same (by rw [hget, if_neg hid])
  | @request _ _ _ _ i row row' hid hheld hrow hchange =>
    by_cases hi : id = i
    · subst hi
      exact .changed hid hrow (by simp [Db.putRequest, hrow]) hchange
    · exact .same (by simp [Db.putRequest, hi])
  | ensureTerminal hheld htask hterminal htext hrow hdb =>
    obtain ⟨-, -, heq⟩ := Db.insertCleanup_spec hdb
    exact .same (by rw [heq])
  | ensure hheld htask hopen hlock hrow hdb₁ hdb₂ =>
    obtain ⟨-, -, heq⟩ := Db.insertCleanup_spec hdb₁
    have heq₂ := heldLock_spec hdb₂
    exact .same (by rw [heq₂, heq]; rfl)
  | cleanup hheld hrow hchange => exact .same rfl
  | bindExecution hheld hrow hstate hattempts hfor htask hlock hrow' => exact .same rfl
  | @finish _ _ claim record row row' task ids sessionIds hheld hproof hrow hstate hattempts htask
      hsame hids hlocks hrow' =>
    -- Only the requests that are compensated change.
    have hget : ∀ i, (((((FailureStore.settle record.taskId row task db).compensate ids).deleteLocks
        sessionIds).putCleanup record.taskId row').requests.get i) =
          (db.requests.get i).map fun r =>
            if i ∈ ids then { r with state := .compensated } else r := by
      intro i
      show ((FailureStore.settle record.taskId row task db).compensate ids).requests.get i = _
      simp [Db.compensate, settle_requests]
    by_cases hi : id ∈ ids
    · obtain ⟨r, hr, hrt, hra⟩ := (hids.2 id).mp hi
      exact .compensated rfl hr hrt hra (by rw [hget, hr]; simp [hi])
    · refine .same ?_
      rw [hget]
      cases db.requests.get id <;> simp [hi]
  | task hheld htask hchange hlocks => exact .same rfl
  | lockSession hheld htask hdb =>
    obtain ⟨-, -, heq⟩ := Db.insertLock_spec hdb
    exact .same (by rw [heq])
  | binding hheld => exact .same rfl
  | bind hheld htask hlock hdb₁ =>
    rename_i lock
    obtain ⟨-, -, heq⟩ := Db.insertBinding_spec hdb₁
    cases lock with
    | none => exact .same (by rw [heq]; rfl)
    | some l => exact .same (by rw [heq]; rfl)

/-- A commit changes a cleanup in one of the ways of `CleanupFate`. -/
theorem Commit.cleanup_fate (h : Commit S op held result db db') (id : Uuid) :
    CleanupFate op result db db' id := by
  cases h with
  | start hinput hdb =>
    obtain ⟨db₁, h₁, h₂⟩ := Option.bind_eq_some_iff.mp hdb
    obtain ⟨-, -, heq⟩ := insertStart_spec h₁
    obtain ⟨-, -, -, heq₂⟩ := Db.insertRequest_spec h₂
    exact .same (by rw [heq₂, heq])
  | resume hinput hheld htask hsame hopen hdb =>
    obtain ⟨-, -, -, heq⟩ := Db.insertRequest_spec hdb
    exact .same (by rw [heq])
  | request hid hheld hrow hchange => exact .same rfl
  | @ensureTerminal _ _ _ taskId _ _ _ _ _ _ _ row hheld htask hterminal htext hrow hdb =>
    obtain ⟨hnone, hget, -⟩ := Db.insertCleanup_spec hdb
    by_cases hid : id = taskId
    · subst hid
      exact .opened rfl hnone htask (by rw [hget, if_pos rfl]) hrow
    · exact .same (by rw [hget, if_neg hid])
  -- The failed Task's cleanup is opened beside the Session lock.
  | @ensure _ _ db₁ db₂ taskId _ _ _ _ _ _ _ row _ hheld htask hopen hlock hrow hdb₁ hdb₂ =>
    obtain ⟨hnone, hget, -⟩ := Db.insertCleanup_spec hdb₁
    have heq₂ := heldLock_spec hdb₂
    have hcl : db₂.cleanups = db₁.cleanups := by rw [heq₂]
    by_cases hid : id = taskId
    · subst hid
      refine .opened rfl hnone htask ?_ hrow
      show db₂.cleanups.get id = some row
      rw [hcl, hget, if_pos rfl]
    · refine .same ?_
      show db₂.cleanups.get id = db.cleanups.get id
      rw [hcl, hget, if_neg hid]
  | @cleanup _ _ _ _ i row row' _ hheld hrow hchange =>
    by_cases hi : id = i
    · subst hi
      exact .changed hrow (by simp [Db.putCleanup, hrow]) hchange
    · exact .same (by simp [Db.putCleanup, hi])
  | @bindExecution _ _ claim record row row' executionId task lock hheld hrow hstate hattempts hfor
      htask hlock hrow' =>
    by_cases hi : id = record.taskId
    · subst hi
      exact .bound rfl rfl hrow hstate hattempts hfor
        (by simp [Db.putCleanup, Db.putTask, Db.putLock, hrow, hrow'])
    · exact .same (by simp [Db.putCleanup, Db.putTask, Db.putLock, hi])
  | @finish _ _ claim record row row' task ids sessionIds hheld hproof hrow hstate hattempts htask
      hsame hids hlocks hrow' =>
    -- What else is settled leaves the cleanups.
    have hget : ∀ i, (((((FailureStore.settle record.taskId row task db).compensate ids).deleteLocks
        sessionIds).putCleanup record.taskId row').cleanups.get i) =
          (db.putCleanup record.taskId row').cleanups.get i := by
      intro i
      simp [Db.putCleanup, Db.compensate, Db.deleteLocks, settle_cleanups]
    by_cases hi : id = record.taskId
    · subst hi
      exact .finished rfl rfl hrow hstate hattempts (by
        rw [hget]
        simp [Db.putCleanup, hrow, hrow'])
    · refine .same ?_
      rw [hget]
      simp [Db.putCleanup, hi]
  | task hheld htask hchange hlocks => exact .same rfl
  | lockSession hheld htask hdb =>
    obtain ⟨-, -, heq⟩ := Db.insertLock_spec hdb
    exact .same (by rw [heq])
  | binding hheld => exact .same rfl
  | bind hheld htask hlock hdb₁ =>
    rename_i lock
    obtain ⟨-, -, heq⟩ := Db.insertBinding_spec hdb₁
    cases lock with
    | none => exact .same (by rw [heq]; rfl)
    | some l => exact .same (by rw [heq]; rfl)

/-- Settling a Task changes the Task's row only, and not if it is terminal. -/
theorem settle_tasks (taskId : Uuid) (row : CleanupRow) (task : TaskRow) (db : Db) :
    (FailureStore.settle taskId row task db).tasks =
      if task.status.isTerminal then db.tasks
      else db.tasks.modifyAt taskId fun _ => FailureStore.settledTask row task := by
  unfold FailureStore.settle
  split <;> rfl

/-- A commit changes a Task in one of the ways of `TaskFate`. -/
theorem Commit.task_fate (h : Commit S op held result db db') (id : Uuid) :
    TaskFate op db db' id := by
  cases h with
  | @start _ _ _ command _ _ _ hinput hdb =>
    obtain ⟨db₁, h₁, h₂⟩ := Option.bind_eq_some_iff.mp hdb
    obtain ⟨hnone, hget, -⟩ := insertStart_spec h₁
    obtain ⟨-, -, -, heq₂⟩ := Db.insertRequest_spec h₂
    have htasks : db'.tasks = db₁.tasks := by rw [heq₂]
    by_cases hid : id = command.turn.activeTaskId
    · exact .started (hid ▸ hnone) (by rw [htasks, hget, if_pos hid])
    · exact .same (by rw [htasks, hget, if_neg hid])
  | resume hinput hheld htask hsame hopen hdb =>
    obtain ⟨-, -, -, heq⟩ := Db.insertRequest_spec hdb
    exact .same (by rw [heq])
  | request hid hheld hrow hchange => exact .same rfl
  | ensureTerminal hheld htask hterminal htext hrow hdb =>
    obtain ⟨-, -, heq⟩ := Db.insertCleanup_spec hdb
    exact .same (by rw [heq])
  | ensure hheld htask hopen hlock hrow hdb₁ hdb₂ =>
    obtain ⟨-, -, heq⟩ := Db.insertCleanup_spec hdb₁
    have heq₂ := heldLock_spec hdb₂
    exact .same (by rw [heq₂, heq]; rfl)
  | cleanup hheld hrow hchange => exact .same rfl
  | @bindExecution _ _ claim record row row' executionId task lock hheld hrow hstate hattempts hfor
      htask hlock hrow' =>
    by_cases hi : id = record.taskId
    · subst hi
      exact @TaskFate.bound _ _ _ _ task executionId htask
        (by simp [Db.putTask, Db.putLock, Db.putCleanup, htask])
    · exact .same (by simp [Db.putTask, Db.putLock, Db.putCleanup, hi])
  | @finish _ _ claim record row row' task ids sessionIds hheld hproof hrow hstate hattempts htask
      hsame hids hlocks hrow' =>
    have hget : ((((FailureStore.settle record.taskId row task db).compensate ids).deleteLocks
        sessionIds).putCleanup record.taskId row').tasks =
          (FailureStore.settle record.taskId row task db).tasks := rfl
    -- A Task that has ended is not settled again.
    by_cases hopen : task.status.isTerminal = true
    · exact .same (by rw [hget, settle_tasks, if_pos hopen])
    · rw [Bool.not_eq_true] at hopen
      have hset : (FailureStore.settle record.taskId row task db).tasks =
          db.tasks.modifyAt record.taskId fun _ => FailureStore.settledTask row task := by
        rw [settle_tasks, if_neg (by simp [hopen])]
      by_cases hi : id = record.taskId
      · subst hi
        exact .settled rfl rfl hrow htask hopen (by rw [hget, hset]; simp [htask])
      · exact .same (by rw [hget, hset]; simp [hi])
  | @task _ _ _ i task task' _ _ _ _ hheld htask hchange hlocks =>
    by_cases hi : id = i
    · subst hi
      exact .changed htask (by simp [Db.putTask, htask]) hchange
    · exact .same (by simp [Db.putTask, hi])
  | lockSession hheld htask hdb =>
    obtain ⟨-, -, heq⟩ := Db.insertLock_spec hdb
    exact .same (by rw [heq])
  | binding hheld => exact .same rfl
  | @bind _ _ db₁ taskId executionId _ _ _ _ _ task lock hheld htask hlock hdb₁ =>
    obtain ⟨-, -, heq⟩ := Db.insertBinding_spec hdb₁
    have htasks : db₁.tasks =
        (db.putTask taskId { task with executionId := some executionId }).tasks := by
      rw [heq]
    have hbound : (boundLock db₁ task.sessionId executionId lock).tasks = db₁.tasks := by
      cases lock <;> rfl
    by_cases hi : id = taskId
    · subst hi
      exact @TaskFate.bound _ _ _ _ task executionId htask
        (by rw [hbound, htasks]; simp [Db.putTask, htask])
    · exact .same (by rw [hbound, htasks]; simp [Db.putTask, hi])

/-- A commit changes a Session lock in one of the ways of `LockFate`. -/
theorem Commit.lock_fate (h : Commit S op held result db db') {sessionId : Uuid} {lock' : LockRow}
    (hl : db'.locks.get sessionId = some lock') : LockFate op held db sessionId lock' := by
  cases h with
  -- A START inserts a Task and a request.
  | start hinput hdb =>
    obtain ⟨db₁, h₁, h₂⟩ := Option.bind_eq_some_iff.mp hdb
    obtain ⟨-, -, heq⟩ := insertStart_spec h₁
    obtain ⟨-, -, -, heq₂⟩ := Db.insertRequest_spec h₂
    rw [heq₂, heq] at hl
    exact .kept hl rfl
  | resume hinput hheld htask hsame hopen hdb =>
    obtain ⟨-, -, -, heq⟩ := Db.insertRequest_spec hdb
    rw [heq] at hl
    exact .kept hl rfl
  | request hid hheld hrow hchange => exact .kept hl rfl
  | ensureTerminal hheld htask hterminal htext hrow hdb =>
    obtain ⟨-, -, heq⟩ := Db.insertCleanup_spec hdb
    rw [heq] at hl
    exact .kept hl rfl
  | @ensure _ _ db₁ db₂ taskId sid _ _ _ _ task _ row lock hheld htask hopen hlock hrow hdb₁ hdb₂ =>
    obtain ⟨-, -, heq⟩ := Db.insertCleanup_spec hdb₁
    have hlocks : db₁.locks = db.locks := by rw [heq]
    replace hl : db₂.locks.get sessionId = some lock' := hl
    -- The failed Task takes the Session lock, if the Session has none.
    cases lock with
    | none =>
      obtain ⟨-, hget, -⟩ := Db.insertLock_spec hdb₂
      rw [hget, hlocks] at hl
      by_cases hs : sessionId = row.sessionId
      · rw [if_pos hs] at hl
        have howner : lock'.activeTaskId = taskId := by
          rw [← Option.some.inj hl, hrow]
          rfl
        exact .ensured (howner ▸ hheld) (howner ▸ htask) hopen
      · rw [if_neg hs] at hl
        exact .kept hl rfl
    | some l =>
      obtain rfl := Option.some.inj hdb₂
      by_cases hs : sessionId = row.sessionId
      · subst hs
        obtain ⟨-, -, hget⟩ := hlock l rfl
        have hsid : row.sessionId = sid := by rw [hrow]; rfl
        simp only [Db.putLock, Table.get_modifyAt, hlocks, hsid, hget, if_true, Option.map_some,
          Option.some.injEq] at hl
        exact .kept (hsid ▸ hget) (hl ▸ rfl)
      · simp only [Db.putLock, Table.get_modifyAt, hlocks, hs, if_false] at hl
        exact .kept hl rfl
  | cleanup hheld hrow hchange => exact .kept hl rfl
  | @bindExecution _ _ claim record row row' executionId task lock hheld hrow hstate hattempts hfor
      htask hlock hrow' =>
    by_cases hs : sessionId = row.sessionId
    · subst hs
      simp only [Db.putLock, Db.putTask, Db.putCleanup, Table.get_modifyAt, hlock, if_true,
        Option.map_some, Option.some.injEq] at hl
      exact .kept hlock (hl ▸ rfl)
    · simp only [Db.putLock, Db.putTask, Db.putCleanup, Table.get_modifyAt, hs, if_false] at hl
      exact .kept hl rfl
  | finish hheld hproof hrow hstate hattempts htask hsame hids hlocks hrow' =>
    -- Locks are only deleted here.
    simp only [Db.putCleanup, Db.deleteLocks, Db.compensate, settle_locks,
      Table.get_deleteKeys] at hl
    split at hl
    · cases hl
    · exact .kept hl rfl
  | task hheld htask hchange hlocks =>
    simp only [Table.get_deleteKeys] at hl
    split at hl
    · cases hl
    · exact .kept hl rfl
  | @lockSession _ _ _ taskId task hheld htask hdb =>
    obtain ⟨hnone, hget, -⟩ := Db.insertLock_spec hdb
    rw [hget] at hl
    -- The lock is the locked Session's, or one that was there.
    by_cases hs : sessionId = task.sessionId
    · rw [if_pos hs] at hl
      obtain rfl := Option.some.inj hl
      exact .locked rfl hheld htask hs.symm (hs ▸ hnone)
    · rw [if_neg hs] at hl
      exact .kept hl rfl
  | binding hheld => exact .kept hl rfl
  | @bind _ _ db₁ taskId executionId _ _ _ _ _ task lock hheld htask hlock hdb₁ =>
    obtain ⟨-, -, heq⟩ := Db.insertBinding_spec hdb₁
    have hlocks : db₁.locks = db.locks := by
      rw [heq]
      rfl
    -- The Execution is written into the lock of the Task's own Session.
    cases lock with
    | none => exact .kept (hlocks ▸ hl) rfl
    | some l =>
      by_cases hs : sessionId = task.sessionId
      · subst hs
        obtain ⟨-, hget⟩ := hlock l rfl
        simp only [boundLock, Db.putLock, Table.get_modifyAt, hlocks, hget, if_true,
          Option.map_some, Option.some.injEq] at hl
        exact .kept hget (hl ▸ rfl)
      · simp only [boundLock, Db.putLock, Table.get_modifyAt, hlocks, hs, if_false] at hl
        exact .kept hl rfl

end Fates

end ExAgent.Stores
