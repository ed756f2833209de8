import ExAgent.Session.Runtime

/-!
# Deliveries of Executor events

`SessionGraphAdapter.__call__` of `agent/integrations/langgraph_adapter.py`, which the worker's
dispatcher calls for every delivery of a command while it holds the session's guard. From the
snapshot alone the adapter decides whether the event answers the open interrupt, whether pending
nodes are the command's own, or whether there is nothing to do.
-/

namespace ExAgent.Session

open Lib ExAgent.Graph

/-- `EventContext`, for one session. -/
structure Delivery where
  taskId : Uuid
  executionId : Uuid
  commandId : Uuid
  event : Worker.ExecutorEvent
deriving DecidableEq

/-- The action that answers `wait_external_signal`. -/
def Delivery.action (d : Delivery) : WorkerAction := ⟨d.taskId, d.commandId, d.event⟩

/-- How a delivery ends. -/
inductive DeliveryEnd
  | returned
  | deferEvent (message : String)
  | ignoreEvent (message : String)
  | rejectEvent (message : String)
deriving DecidableEq

/-- The owner that the adapter expects of pending nodes; a session without one has not been owned
before. -/
def Delivery.MayOwn (d : Delivery) (owner : Option (Option Owner)) : Prop :=
  owner = none ∨ owner = some (some (.executor d.commandId))

instance (d : Delivery) (owner : Option (Option Owner)) : Decidable (d.MayOwn owner) :=
  inferInstanceAs (Decidable (_ ∨ _))

/-- The adapter on a command whose receipt is in the checkpoint. A later user approval may own the
pending nodes while the previous Worker action is still retained in `ew_pending`. -/
def afterReceipt (d : Delivery) (snapshot : Thread) (receipt : Uuid) : DeliveryEnd ⊕ Input :=
  if receipt ≠ d.event.eventId then .inl (.rejectEvent "Command receipt identity mismatch")
  else if ¬d.MayOwn snapshot.values.invocationOwner then .inl .returned
  else if snapshot.values.ewPending.map WorkerAction.commandId = some d.commandId ∧
      snapshot.next ≠ none ∧ snapshot.interrupt = none ∧
      snapshot.values.activeTaskId = some d.taskId ∧
      snapshot.values.executionId = some d.executionId then .inr .pending
  else .inl .returned

/-- The adapter at the open interrupt of a session. -/
def atInterrupt (d : Delivery) (snapshot : Thread) (interruptId : ℕ) (boundary : Boundary) :
    DeliveryEnd ⊕ Input :=
  if boundary.kind ≠ .executorEvent then
    .inl (.deferEvent "Checkpoint is waiting for user input")
  else if boundary.executionId ≠ some d.executionId ∨ boundary.taskId ≠ some d.taskId then
    .inl (.rejectEvent "Interrupt binding mismatch")
  else if d.event.eventSequence ≤ (snapshot.values.ewSequences d.executionId).getD 0 then
    .inl (.ignoreEvent "Older execution sequence already applied")
  else .inr (.resume interruptId (.worker d.action))

/-- The adapter on a command without receipt. -/
def beforeReceipt (d : Delivery) (snapshot : Thread) : DeliveryEnd ⊕ Input :=
  let values := snapshot.values
  if snapshot.checkpointId = 0 then
    .inl (.deferEvent "API has not checkpointed the execution yet")
  else if values.activeTaskId ≠ some d.taskId ∨ values.executionId ≠ some d.executionId then
    if values.ewSequences d.executionId ≠ none then
      .inl (.ignoreEvent "Event belongs to an inactive execution")
    else .inl (.deferEvent "API has not checkpointed this binding yet")
  else
    match snapshot.next, snapshot.boundary? with
    | none, _ => .inl (.ignoreEvent "Execution graph already ended")
    | some _, none =>
      if snapshot.interrupt ≠ none then .inl (.deferEvent "Expected exactly one Executor wait")
      else if values.ewPending ≠ some d.action ∨ ¬d.MayOwn values.invocationOwner then
        .inl (.deferEvent "Another invocation requires recovery")
      -- The wait node has consumed the resume: continue with the pending nodes.
      else .inr .pending
    | some _, some (_, interruptId, boundary) => atInterrupt d snapshot interruptId boundary

/-- `SessionGraphAdapter.__call__` up to its `ainvoke`: how the delivery ends without one, or what
`ainvoke` is given. -/
def decideDelivery (d : Delivery) (snapshot : Thread) : DeliveryEnd ⊕ Input :=
  match snapshot.values.ewReceipts d.commandId with
  | some receipt => afterReceipt d snapshot receipt
  | none => beforeReceipt d snapshot

/-- The end of a delivery that has invoked the graph: the receipt has to be there. -/
def deliveryEnd (d : Delivery) (after : Thread) : DeliveryEnd :=
  if after.values.ewReceipts d.commandId ≠ some d.event.eventId then
    .deferEvent "Handler has not recorded its receipt yet"
  else .returned

end ExAgent.Session
