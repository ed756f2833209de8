import ExAgent.Graph.Cancelled
import ExAgent.Session.Application

/-!
# The status that a session shows

`TaskStateProjector` of `agent/projections.py`, and a session whose callers use it. The projector
derives the status of a Task from a snapshot: from the open interrupt if there is one, else from the
phase. `AdmissionService` projects what its `ainvoke` leaves before it finishes a request,
`SessionGraphAdapter` projects the snapshot a delivery finds and the one it leaves, and
`capture_api` closes a request without a projection. A projection that raises ends the call as any
other exception does.

`Visible` says that an accepted cancellation stays visible: once the call that ran
`cancel_execution` has been finished as `APPLIED`, the Task is `CANCEL_REQUESTED` until it ends.
-/

namespace ExAgent.Session

open Lib ExAgent.Graph

/-! ## The projector -/

/-- `_projected_status`. -/
def projectedStatus (phase : TaskStatus) : Option Boundary → TaskStatus
  | none => phase
  | some interrupt =>
    match interrupt.kind with
    | .planReview => .waitingForApproval
    | .executorEvent => .waitingForExecutorEvent
    | _ => .planning

/-- `TaskStateProjector._write`, as far as the status goes. -/
def writeStatus (w : World) (taskId : Uuid) (status : TaskStatus) : Except Raised World :=
  match w.tasks.get taskId with
  | none => .error (.lookupError "Graph Task projection target is missing")
  | some task =>
    if task.status.isTerminal then .ok w
    else if status.isTerminal then
      .error (.valueError "Terminal graph state requires a committed Task result")
    else .ok { w with tasks := w.tasks.modifyAt taskId fun t => { t with status } }

/-- `TaskStateProjector.__call__` on the snapshot of a session. -/
def System.project (s : System) : Except Raised System :=
  match s.thread.values.activeTaskId, s.thread.values.workflow with
  | some taskId, some workflow =>
    let status := projectedStatus workflow.phase (s.thread.boundary?.map fun b => b.2.2)
    (writeStatus s.thread.world taskId status).map fun world =>
      { s with thread := { s.thread with world } }
  | _, _ => .ok s

/-! ## Sessions that project -/

/-- `execute` finds the work of its request done, and no attempt left. -/
def System.exhausted (H : Host) (s : System) (requestId : Uuid) : Bool :=
  match s.tables.requests.get requestId with
  | none => false
  | some row => (row.state = .pending ∨ row.state = .running) ∧ H.maxAttempts ≤ row.attempts ∧
      completed H s.thread row = true

/-- The step projects the snapshot before it does anything else. -/
def projects (H : Host) (s : System) : Action → Bool
  | .execute requestId => s.running.isNone && s.exhausted H requestId
  | .decide =>
    match s.running with
    | some (.executor _, .deciding) => true
    | _ => false
  | .finish =>
    match s.running with
    | some (.executor _, .returned) => true
    | some (.api record, .returned) => returnedState H s.thread record = .applied
    | _ => false
  | _ => false

/-- A projection has raised. A host writes that down as the end of its attempt, `execute` leaves its
request alone, and the exception of a delivery goes to the dispatcher. -/
def System.unprojected (H : Host) (s : System) : System :=
  match s.running with
  | some (.api record, _) => s.settle record (retryState H record)
  | _ => { s with running := none }

/-- One step of a session whose callers project. -/
def projectingStep (H : Host) (s : System) (a : Action) : Option System :=
  if projects H s a then
    match s.project with
    | .ok shown => step H shown a
    | .error _ => some (s.unprojected H)
  else step H s a

/-- A session whose callers project. -/
def projecting (H : Host) : Machine System Action := ⟨fun s => s = {}, projectingStep H⟩

/-! ## What is to stay visible -/

/-- The request and the Task of a call that has run `cancel_execution`. -/
def Entry.cancels? : Entry → Option (Uuid × Uuid)
  | .checkpointed (.api record) .cancelExecution _ before _ =>
    before.workflow.map fun wf => (record.command.requestId, wf.activeTaskId)
  | _ => none

/-- The cancellations that were applied. -/
def System.cancellations (s : System) : List (Uuid × Uuid) := s.log.filterMap Entry.cancels?

/-- The processing of a request is complete. -/
def System.Complete (s : System) (requestId : Uuid) : Prop :=
  (s.tables.requests.get requestId).map RequestRow.state = some .applied

instance (s : System) (requestId : Uuid) : Decidable (s.Complete requestId) :=
  inferInstanceAs (Decidable (_ = _))

/-- An accepted cancellation is visible, until the Task ends. -/
def Visible (s : System) : Prop :=
  ∀ c ∈ s.cancellations, s.Complete c.1 → Shows c.2 s.thread.world

/-- The step runs a node, or a part of it. -/
def Action.runsNode : Action → Bool
  | .node _ | .timeout _ _ _ | .stop _ _ => true
  | _ => false

/-- What may follow a cancellation: the step does not report, plan anew or approve a plan for a Task
in the phase of a cancellation. Events of an Execution that has not succeeded, their reconciliation,
projections and further cancellations are all such steps. -/
def Later (s : System) (a : Action) : Prop :=
  a.runsNode = true → ∀ p ∈ s.looping?, ∀ wf ∈ s.thread.values.workflow,
    wf.phase = .cancelRequested → p.2.advances = false

instance (s : System) (a : Action) : Decidable (Later s a) :=
  inferInstanceAs (Decidable (_ → ∀ p ∈ s.looping?, ∀ wf ∈ s.thread.values.workflow, _))

/-- `resolve_applied` finds what it asks for. -/
def System.resolvable (H : Host) (s : System) (requestId : Uuid) : Bool :=
  match s.tables.requests.get requestId with
  | none => false
  | some row => row.state = .blocked ∧ row.command.turn.activeTaskId ∉ s.tables.cleanups ∧
      completed H s.thread row = true

/-- The request that a step completes. -/
def completes? (H : Host) (s : System) : Action → Option Uuid
  | .execute requestId => if projects H s (.execute requestId) then some requestId else none
  | .finish =>
    match s.running with
    | some (.api record, .returned) =>
      if returnedState H s.thread record = .applied then some record.command.requestId else none
    | _ => none
  | .resolveApplied requestId => if s.resolvable H requestId then some requestId else none
  | _ => none

/-- The step takes no cancellation out of sight. While a cancellation is complete or about to be,
and its Task goes on, no snapshot with an open interrupt is projected; and a request is completed
without a projection only when its Task shows the cancellation already. -/
def Unhidden (H : Host) (s : System) (a : Action) : Prop :=
  ∀ c ∈ s.cancellations, s.Complete c.1 ∨ completes? H s a = some c.1 →
    ∀ task ∈ s.thread.world.tasks.get c.2, task.status.isTerminal = false →
      if projects H s a = true then s.thread.boundary? = none
      else s.Complete c.1 ∨ task.status = .cancelRequested

instance (H : Host) (s : System) (a : Action) : Decidable (Unhidden H s a) :=
  inferInstanceAs
    (Decidable (∀ c ∈ s.cancellations, _ → ∀ task ∈ s.thread.world.tasks.get c.2, _ → _))

end ExAgent.Session
