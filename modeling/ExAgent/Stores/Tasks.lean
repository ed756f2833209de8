import ExAgent.Stores.Cleanups

/-!
# The other transactions that write a Task

`TaskRepository` (`ex_agent/persistence/repositories/tasks.py`), `TaskStateProjector`
(`agent/projections.py`) and `EffectProjections` (`agent/effects/projections.py`). The projections
look at the status under the lock of the Task and leave a terminal Task alone; the methods of the
repository write what they are given.
-/

namespace ExAgent.Stores

open Lib ExAgent.Graph

/-- `payload.get("kind")`, as its canonical text. -/
def interruptKind (payload : Dict) : Option String :=
  (payload.members.find? fun m => m.1 = "kind").map Prod.snd

/-- `_interrupt_status`. -/
def interruptStatus (payload : Dict) : TaskStatus :=
  if interruptKind payload = some "\"PLAN_REVIEW\"" then .waitingForApproval
  else if interruptKind payload = some "\"EXECUTOR_EVENT\"" then .waitingForExecutorEvent
  else .planning

namespace TaskRepository

/-- `required_task(…, for_update=True)`. -/
def requiredTask (taskId : Uuid) (next : TaskRow → Transaction) : Transaction :=
  lockTask taskId fun task =>
    match task with
    | none => raise (.lookupError ("Unknown task: " ++ toString taskId))
    | some task => next task

/-- `TaskRepository.update_status`. -/
def updateStatus (taskId : Uuid) (status : TaskStatus) (payload : Option Dict) : Transaction :=
  requiredTask taskId fun task =>
    save (fun db => (db.putTask taskId { task with status }).addEvent
      (.statusChanged taskId status payload)) .done

/-- `TaskRepository.record_interrupt`. -/
def recordInterrupt (taskId : Uuid) (payload : Dict) : Transaction :=
  requiredTask taskId fun task =>
    save (fun db => (db.putTask taskId
        { task with currentInterrupt := some payload, status := interruptStatus payload }).addEvent
      (.interrupted taskId payload)) .done

/-- `TaskRepository.clear_interrupt`. -/
def clearInterrupt (taskId : Uuid) : Transaction :=
  requiredTask taskId fun task =>
    save (fun db => db.putTask taskId { task with currentInterrupt := none }) .done

/-- The Task, the message and the event of a result. -/
def committed (taskId : Uuid) (task : TaskRow) (content : String) (status : TaskStatus)
    (metadata : Metadata) (db : Db) : Db :=
  ((db.putTask taskId
      { task with status, terminalMessage := some content, currentInterrupt := none }).addMessage
      { taskId, role := .assistant, content, metadata := some metadata }).addEvent
    (.completed taskId status none)

/-- `DELETE FROM agent_session_locks WHERE active_task_id = …`. -/
def deleteLocksOf (taskId : Uuid) (next : List Uuid → Transaction) : Transaction :=
  .select fun db =>
    Txn.lockEach (FailureStore.isLockOf taskId) (FailureStore.locksOf db taskId) [] fun locks =>
      next (FailureStore.lockIds locks)

/-- `TaskRepository.commit_message`. -/
def commitMessage (taskId : Uuid) (content : String) (status : TaskStatus) (metadata : Dict) :
    Transaction :=
  requiredTask taskId fun task =>
    if status.isTerminal then deleteLocksOf taskId fun locks =>
      save (fun db => (committed taskId task content status (.dict metadata) db).deleteLocks locks)
        .done
    else save (committed taskId task content status (.dict metadata)) .done

/-- `TaskRepository.lock_session`. -/
def lockSession (taskId : Uuid) : Transaction :=
  requiredTask taskId fun task =>
    lockSessionLock task.sessionId fun existing =>
      match existing with
      | some existing =>
        if existing.activeTaskId ≠ taskId then raise (.sessionLocked existing.activeTaskId)
        else .ret (.ok .done)
      | none => .commit (fun db => db.insertLock task.sessionId { activeTaskId := taskId })
          (.ok .done) (raise .integrityError)

end TaskRepository

/-- The event of a projection. -/
def TaskStateProjector.event (taskId : Uuid) (task : TaskRow) (status : TaskStatus) :
    Option Dict → TaskEvent
  | some payload => .interrupted taskId payload
  | none => .projected taskId status task.currentInterrupt.isSome

/-- `TaskStateProjector._write`. -/
def TaskStateProjector.write (taskId : Uuid) (status : TaskStatus) (interrupt : Option Dict) :
    Transaction :=
  lockTask taskId fun task =>
    match task with
    | none => raise (.lookupError "Graph Task projection target is missing")
    | some task =>
      if task.status.isTerminal then .ret (.ok .done)
      else if status.isTerminal then
        raise (.valueError "Terminal graph state requires a committed Task result")
      else if task.status = status ∧ task.currentInterrupt = interrupt then .ret (.ok .done)
      else save (fun db => (db.putTask taskId
          { task with status, currentInterrupt := interrupt }).addEvent
        (TaskStateProjector.event taskId task status interrupt)) .done

namespace EffectProjections

/-- The binding that a receipt leaves: an obsolete receipt must not rewind the current Operation. -/
def advanced (binding : Binding) (executionId : Uuid) (executionVersion : ℕ)
    (operationId : Option Uuid) (nextStepSequence : Option ℕ) (create : Bool) :
    Except StoreError Binding :=
  if binding.executionId ≠ executionId then
    .error (.valueError "Task is bound to another Execution")
  else
    let binding' := { binding with
      executionVersion := max binding.executionVersion executionVersion }
    match nextStepSequence with
    | none => .ok binding'
    | some sequence =>
      -- The Operation of the current sequence is the one that is bound.
      if sequence = binding.nextStepSequence then
        if operationId ≠ some binding.operationId then
          .error (.valueError "Step sequence has another Operation")
        else .ok binding'
      else if binding.nextStepSequence < sequence then
        match operationId with
        | none => .error (.valueError "Invalid binding sequence advance")
        | some operationId =>
          if create then .error (.valueError "Invalid binding sequence advance")
          -- The sequence moves on with its Operation.
          else .ok { binding' with nextStepSequence := sequence, operationId }
      else .ok binding'

/-- The flush of a new binding. The `UPDATE` of the session lock was prepared from a plain read; it
takes the row when it runs, and fails when the row is gone. -/
def bind (taskId : Uuid) (task : TaskRow) (executionId : Uuid) (binding : Binding) : Transaction :=
  .select fun db =>
    let write (db : Db) : Option Db :=
      (db.putTask taskId { task with executionId := some executionId }).insertBinding taskId binding
    match (db.locks.get task.sessionId).filter fun lock => lock.activeTaskId = taskId with
    | none => .commit write (.ok .done) (raise .integrityError)
    | some _ => lockSessionLock task.sessionId fun lock =>
      match lock with
      | none => raise .staleDataError
      | some lock => .commit (fun db => (write db).map fun db =>
          db.putLock task.sessionId { lock with executionId := some executionId })
        (.ok .done) (raise .integrityError)

/-- `EffectProjections.binding`. -/
def binding (taskId executionId : Uuid) (executionVersion : ℕ) (operationId : Option Uuid)
    (nextStepSequence : Option ℕ) (create : Bool) : Transaction :=
  lockTask taskId fun task =>
    match task with
    | none => raise (.lookupError "Unknown effect Task")
    | some task => lockBinding taskId fun binding =>
      match binding with
      | some binding =>
        match advanced binding executionId executionVersion operationId nextStepSequence create with
        | .error e => raise e
        | .ok binding => save (fun db => db.putBinding taskId binding) .done
      | none =>
        -- The first receipt makes the row.
        match create, operationId, nextStepSequence with
        | true, some operationId, some nextStepSequence =>
          if FailureStore.isFor executionId task.executionId = false then
            raise (.valueError "Task is bound to another Execution")
          else bind taskId task executionId
            { executionId, operationId, executionVersion, nextStepSequence, lastEventSequence := 0 }
        | true, some _, none => raise (.valueError "Initial binding requires Step sequence")
        | _, _, _ => raise (.lookupError "Executor binding does not exist")

/-- The last message of the assistant. -/
def previous? (db : Db) (taskId : Uuid) : Option MessageRow :=
  db.messages.reverse.find? fun m => decide (m.taskId = taskId) && decide (m.role = .assistant)

/-- `EffectProjections.terminal`. -/
def terminal (taskId : Uuid) (status : TaskStatus) (message : String) (metadata : Dict) :
    Transaction :=
  if status.isTerminal = false then
    raise (.valueError "Terminal projection requires terminal status")
  else lockTask taskId fun task =>
    match task with
    | none => raise (.lookupError "Unknown terminal Task")
    | some task =>
      -- A second result must be the same one.
      if task.status.isTerminal then .select fun db =>
        if task.status ≠ status ∨ task.terminalMessage ≠ some message ∨
            (previous? db taskId).map (fun m => (m.content, m.metadata)) ≠
              some (message, some (.dict metadata)) then
          raise (.valueError "Terminal Task result cannot change")
        else .ret (.ok .done)
      else TaskRepository.deleteLocksOf taskId fun locks =>
        save (fun db => (TaskRepository.committed taskId task message status (.dict metadata)
          db).deleteLocks locks) .done

/-- An exception of a store as the graph sees it. -/
def raisedOf : StoreError → Raised
  | .valueError message => .valueError message
  | .lookupError message => .lookupError message
  | .sessionLocked activeTaskId => .sessionLocked activeTaskId
  | .assertionError => .assertionError
  | _ => .other

/-- The graph takes `EffectProjections.binding` as one step: on a binding that is there it writes
the row of the transaction, or raises what the transaction raises. -/
theorem projectBinding_eq {w : World} {taskId : Uuid} {task : Graph.TaskRow} {b : Binding}
    (htask : w.tasks.get taskId = some task) (hb : w.bindings.get taskId = some b)
    (executionId : Uuid) (executionVersion : ℕ) (operationId : Option Uuid)
    (nextStepSequence : Option ℕ) (create : Bool) :
    projectBinding taskId executionId executionVersion operationId nextStepSequence create w =
      match advanced b executionId executionVersion operationId nextStepSequence create with
      | .ok b' =>
        let w' := { w with bindings := w.bindings.modifyAt taskId fun _ => b' }
        ⟨[w'], w', .ok ()⟩
      | .error e => ⟨[], w, .error (raisedOf e)⟩ := by
  unfold projectBinding advanced Prog.transact
  dsimp only
  rw [htask, hb]
  dsimp only
  by_cases hexecution : b.executionId ≠ executionId
  · rw [if_pos hexecution, if_pos hexecution]
    rfl
  · rw [if_neg hexecution, if_neg hexecution]
    cases nextStepSequence with
    | none => rfl
    | some next =>
      dsimp only
      by_cases hsame : next = b.nextStepSequence
      · rw [if_pos hsame, if_pos hsame]
        split_ifs
        · rfl
        · rfl
      · rw [if_neg hsame, if_neg hsame]
        by_cases hlt : b.nextStepSequence < next
        · rw [if_pos hlt, if_pos hlt]
          cases operationId with
          | none => rfl
          | some operationId =>
            cases create with
            | false => rfl
            | true => rfl
        · rw [if_neg hlt, if_neg hlt]

end EffectProjections

end ExAgent.Stores
