import ExAgent.Failure.Graph
import ExAgent.Session.Steps
import ExAgent.Graph.Kept

/-!
# A session with its failure cleanups

The session of `Session.System` and the cleanups of its Tasks. A cleanup is opened under the
session's guard, confirmed once with what proves that nothing runs for the Task, and settled under
the guard as often as its process dies: `settle` stops `settle_graph` after any of its writes. It is
finished when the checkpoint needs no more writes. The rows leave out attempts and delays, which
decide only when an attempt is made.

`Inv` says what a settlement leaves for as long as its Task is the active one: only `begin_task` can
be next, for the turn of a later Task.
-/

namespace ExAgent.Failure

open Lib ExAgent.Graph
open Session (Host Thread Held)
open Stores (CleanupRow isText)

/-- A session with its cleanups. -/
structure Site where
  session : Session.System := {}
  marks : Marks := {}
  records : Table Uuid CleanupRow := .empty

/-- The last checkpoint. -/
def Site.checkpoint (s : Site) : Checkpoint := { toThread := s.session.thread, toMarks := s.marks }

/-- Another checkpoint is the last one. -/
def Site.put (s : Site) (c : Checkpoint) : Site :=
  { s with session := { s.session with thread := c.toThread }, marks := c.toMarks }

/-- What happens in a session with cleanups. -/
inductive Act
  /-- A step of the session. A node that completes writes messages. -/
  | session (a : Session.Action) (messages : List Message)
  /-- `FailureStore.ensure` adds a row. -/
  | ensure (row : CleanupRow)
  /-- `FailureStore.confirm` of a record without proof. -/
  | confirm (taskId : Uuid) (executionId : Option Uuid) (status : Stores.ExecutorStatus)
      (message : String)
  /-- `settle_graph` runs to its end or is stopped after some of its writes. -/
  | settle (taskId : Uuid) (writes : ℕ)
  /-- `FailureStore.finish`. -/
  | finish (taskId : Uuid)

/-- A node has completed: the only other checkpoint is that of a turn. -/
def nodeCompleted (before after : Thread) : Bool :=
  decide (after.checkpointId ≠ before.checkpointId) && decide (after.next ≠ some .beginTask)

/-- The marks after a step of the session. `begin_task` writes an empty owner. -/
def Marks.after (marks : Marks) (before after : Thread) (messages : List Message) : Marks :=
  if nodeCompleted before after then
    { marks with
      messages
      settledBy :=
        if before.next = some .beginTask ∨ after.values.invocationOwner ≠ some none then none
        else marks.settledBy }
  else marks

/-- The row is one that `ensure` adds for the Task in its tables. -/
def Site.opens (s : Site) (row : CleanupRow) : Bool :=
  match s.session.thread.world.tasks.get row.taskId with
  | none => false
  | some task =>
    decide (s.session.tables.turns.get row.taskId = some row.turn) &&
    decide (row.preserveTerminal = task.status.isTerminal) &&
    if task.status.isTerminal then
      decide (row.finalStatus = task.status) && decide (row.message = task.terminalMessage) &&
        decide (row.executorStatus = some .alreadyTerminal) && isText task.terminalMessage
    else
      decide (row.finalStatus = .failed) && decide (row.message = none) &&
        decide (row.executorStatus = none) &&
        s.session.thread.world.lock.all fun lock => lock.activeTaskId = row.taskId

/-- The tables of a Task that `finish` closes: a terminal one stays as it is. -/
def closeTask (row : CleanupRow) (w : World) : World :=
  { w with
    tasks := w.tasks.modifyAt row.taskId fun task =>
      if task.status.isTerminal then task
      else { task with
        status := row.finalStatus
        terminalMessage := row.message
        executionId := row.executionId
        assistant := row.message.map fun message => (message, none) }
    lock := w.lock.filter fun lock => lock.activeTaskId ≠ row.taskId }

/-- The requests of a Task that `finish` compensates. -/
def compensated (taskId : Uuid) (requests : Table Uuid Session.RequestRow) :
    Table Uuid Session.RequestRow :=
  requests.modify fun _ r =>
    if r.command.turn.activeTaskId = taskId ∧ r.state.isActive = true then
      { r with state := .compensated }
    else r

/-- The session after `ensure`: its Task takes no more input, and one that is not terminal keeps the
session's lock. -/
def Site.fenced (s : Site) (row : CleanupRow) : Session.System :=
  { s.session with
    tables := { s.session.tables with cleanups := row.taskId :: s.session.tables.cleanups }
    thread := { s.session.thread with
      world :=
        if row.preserveTerminal then s.session.thread.world
        else { s.session.thread.world with
          lock := some (s.session.thread.world.lock.getD ⟨row.taskId, row.executionId⟩) } } }

/-- The session after `finish`. -/
def Site.closed (s : Site) (row : CleanupRow) : Session.System :=
  { s.session with
    tables := { s.session.tables with
      requests := compensated row.taskId s.session.tables.requests }
    thread := { s.session.thread with world := closeTask row s.session.thread.world } }

/-- One step. -/
def step (H : Host) (s : Site) : Act → Option Site
  -- The cleanup of a Task is made of the steps below.
  | .session (.cleanup _) _ => none
  | .session a messages => (Session.step H s.session a).map fun session =>
    { s with session, marks := s.marks.after s.session.thread session.thread messages }
  | .ensure row =>
    if s.session.running = none ∧ s.opens row = true then
      (s.records.insert row.taskId row).map fun records =>
        { s with session := s.fenced row, records }
    else none
  | .confirm taskId executionId status message =>
    match s.records.get taskId with
    | none => none
    | some row =>
      if row.executorStatus = none ∧ row.state = .pending ∧
          Stores.FailureStore.ExecutorStatus.isProof status = true ∧ message ≠ "" then
        some { s with records := s.records.modifyAt taskId fun row =>
          { row with executionId, executorStatus := some status, message := some message } }
      else none
  | .settle taskId writes =>
    match s.records.get taskId with
    | none => none
    | some row =>
      if s.session.running = none then
        -- A host that dies leaves some of the updates written.
        ((settleGraph H.deployment row).stoppedAt s.checkpoint writes).map s.put
      else none
  | .finish taskId =>
    match s.records.get taskId with
    | none => none
    | some row =>
      -- It is finished when the graph has nothing left to settle.
      if s.session.running = none ∧ row.state = .pending ∧
          mustSettle H.deployment s.checkpoint row = .ok false then
        some { s with
          session := s.closed row
          records := s.records.modifyAt taskId fun row => { row with state := .done } }
      else none

/-- A session with cleanups as a transition system. -/
def recovery (H : Host) : Machine Site Act := ⟨fun s => s = {}, step H⟩

end ExAgent.Failure
