import ExAgent.Lib.Durable
import ExAgent.Session.System
import ExAgent.Stores.Cleanups

/-!
# The checkpoint of a failed Task

`agent/failure/graph.py`: which checkpoints a cleanup may settle, and what it makes of them. The
keys of a checkpoint that a settlement writes and the session graph does not read stand beside the
thread of the session.
-/

namespace ExAgent.Failure

open Lib ExAgent.Graph
open Stores (CleanupRow isText)

/-- `UnsafeCleanupError`: conflicting evidence requires operator attention. -/
structure UnsafeCleanupError where
  message : String
deriving DecidableEq

/-- The `id` of a message of the checkpoint. -/
inductive MessageId
  /-- `current_input_message_id`. -/
  | input (id : Uuid)
  /-- `task:{task}:result`. -/
  | result (taskId : Uuid)
deriving DecidableEq

/-- A message of the checkpoint. -/
structure Message where
  id : MessageId
  content : String
deriving DecidableEq

/-- One message of `add_messages`: it takes the place of the one with its id, or comes last. -/
def addMessage (messages : List Message) (m : Message) : List Message :=
  if messages.any fun x => x.id = m.id then messages.map fun x => if x.id = m.id then m else x
  else messages ++ [m]

/-- `add_messages`. -/
def addMessages (messages new : List Message) : List Message := new.foldl addMessage messages

/-- The keys that only a settlement gives a meaning: `failure_receipts`, and an `invocation_owner`
of the source `FAILURE`, for which the one of the thread is empty; and the messages. -/
structure Marks where
  failureReceipts : Uuid → Option String := fun _ => none
  settledBy : Option Uuid := none
  messages : List Message := []

/-- A checkpoint of a session. -/
structure Checkpoint extends Session.Thread, Marks

/-- `workflow.phase` of a Task that has ended. -/
def hasEnded (values : SessionState) : Bool :=
  values.workflow.any fun workflow => workflow.phase.isTerminal

/-- `validate_target`: whether there is a checkpoint to settle. -/
def validateTarget (D : Deployment) (snapshot : Checkpoint) (record : CleanupRow) :
    Except UnsafeCleanupError Bool :=
  let turn := record.turn
  let values := snapshot.values
  let foreign := values.activeTaskId.any fun active => active ≠ record.taskId
  if values.identity.any fun identity =>
      identity ≠ (turn.userId, turn.projectId, turn.sessionId) then
    .error ⟨"Checkpoint ownership mismatch"⟩
  else if foreign ∧ record.preserveTerminal then
    -- Late failure for an already completed old Task.
    .ok false
  else if foreign ∧ (snapshot.next ≠ none ∨ hasEnded values = false) then
    .error ⟨"Another Task owns the checkpoint"⟩
  else if foreign ∧ values.taskRequests record.taskId ≠ none then
    .error ⟨"Cannot rewind an old failed Task"⟩
  else if (values.taskRequests record.taskId).any fun fingerprint =>
      fingerprint ≠ D.fingerprint turn then
    .error ⟨"Task checkpoint fingerprint mismatch"⟩
  else .ok true

/-- The receipt of a settlement is in a checkpoint with nothing pending. -/
def isSettled (snapshot : Checkpoint) (record : CleanupRow) : Bool :=
  decide (snapshot.next = none) && decide (snapshot.failureReceipts record.taskId = record.message)

/-- `settle_graph` up to its writes: whether it writes. -/
def mustSettle (D : Deployment) (snapshot : Checkpoint) (record : CleanupRow) :
    Except UnsafeCleanupError Bool :=
  if record.executorStatus = none ∨ isText record.message = false then
    .error ⟨"No durable terminal proof"⟩
  else
    match validateTarget D snapshot record with
    | .error e => .error e
    | .ok false => .ok false
    | .ok true => .ok (!isSettled snapshot record)

/-- `aupdate_state(config, None, as_node=END)`: the tasks with their interrupts and resume writes
are gone. -/
def Checkpoint.cleared (c : Checkpoint) : Checkpoint :=
  { c with
    next := none
    interrupt := none
    kept := none
    given := none
    checkpointId := c.checkpointId + 1 }

/-- The workflow of a settled Task. -/
def settledWorkflow (values : SessionState) (record : CleanupRow) : WorkflowState :=
  let workflow :=
    if values.activeTaskId = some record.taskId then
      values.workflow.getD (.ofTurn record.turn)
    else .ofTurn record.turn
  { workflow with
    phase := record.finalStatus
    terminalMessage := record.message
    executionId := record.executionId.or workflow.executionId }

/-- The messages of a settled Task. -/
def settledMessages (record : CleanupRow) : List Message :=
  [⟨.input record.turn.currentInputMessageId, record.turn.userMessage⟩,
    ⟨.result record.taskId, record.message.getD ""⟩]

/-- The second update of `settle_graph`, as the node `failure_settled`, which leads to the end. -/
def Checkpoint.settled (D : Deployment) (c : Checkpoint) (record : CleanupRow) : Checkpoint :=
  let turn := record.turn
  { c with
    next := none
    -- The interrupt goes with its node, and so does any answer to it.
    interrupt := none
    kept := none
    given := none
    checkpointId := c.checkpointId + 1
    values := { c.values with
      turn := some turn
      identity := some (turn.userId, turn.projectId, turn.sessionId)
      activeTaskId := some record.taskId
      executionId := record.executionId
      workflow := some (settledWorkflow c.values record)
      ewPending := none
      invocationOwner := some none
      taskRequests :=
        Function.update c.values.taskRequests record.taskId (some (D.fingerprint turn))
      ewSequences :=
        match record.executionId with
        -- A sequence is made known and never moved.
        | some id =>
          Function.update c.values.ewSequences id (some ((c.values.ewSequences id).getD 0))
        | none => c.values.ewSequences }
    settledBy := some record.taskId
    failureReceipts := Function.update c.failureReceipts record.taskId record.message
    messages := addMessages c.messages (settledMessages record) }

/-- `settle_graph`: two updates, each of them a checkpoint. -/
def settleGraph (D : Deployment) (record : CleanupRow) :
    Prog Checkpoint UnsafeCleanupError Unit := do
  let settles ← .query fun c => mustSettle D c record
  if settles then
    -- Clear tasks, including stale interrupts and pending resume writes: failed business nodes must
    -- not run.
    .transact fun c => .ok ((), c.cleared)
    .transact fun c => .ok ((), c.settled D record)
    let pending ← .query fun c => .ok (decide (c.next ≠ none))
    .refuseIf (pending = true) ⟨"Failure settlement left pending graph work"⟩
  else pure ()

end ExAgent.Failure
