import ExAgent.Graph.Topology

/-!
# The lineage of executed Steps

`record_successful_steps` keeps, for the promotion of a Task, the Steps that the Executor has run: a
row for each sequence, with the Operation and the payload of the Step. `reconcile_executor` calls it
with the first Step of the plan in the state. The graph's model takes the outcome of the call as
given (`Services.lineage`); here the rows are part of the state, and the outcome is that of the call
on them (`lineageGraph`). The rows and the binding are committed one after the other, so
`reconcile_executor` may also be stopped between the two.
-/

namespace ExAgent.Graph

open Lib Prog

/-- A row of `SuccessfulExecutionStep`; its key is the Task and the execution sequence. -/
structure SuccessfulStep where
  operationId : Uuid
  sourcePlanId : Uuid
  sourcePlanRevisionId : Uuid
  registrySnapshotHash : Sha256
  stepPayload : PlanStepDraft
  stepPayloadHash : Sha256

/-- The rows of all Tasks. -/
abbrev Lineage := Table (Uuid × ℕ) SuccessfulStep

/-- What `record_successful_steps` raises. -/
def lineageChanged : Raised := .valueError "Successful execution Step lineage changed"

section

variable (stepHash : PlanStepDraft → Sha256)

/-- `WorkflowPromotionRepository.record_successful_steps`. -/
def recordSuccessfulSteps (taskId operationId : Uuid) (plan : PersistedPlan)
    (registrySnapshotHash : Sha256) : ℕ → List PlanStepDraft → Lineage → Except Raised Lineage
  | _, [], rows => .ok rows
  | sequence, step :: steps, rows =>
    match rows.get (taskId, sequence) with
    | some existing =>
      if existing.stepPayloadHash ≠ stepHash step ∨ existing.operationId ≠ operationId then
        .error lineageChanged
      else recordSuccessfulSteps taskId operationId plan registrySnapshotHash
        (sequence + 1) steps rows
    | none =>
      recordSuccessfulSteps taskId operationId plan registrySnapshotHash (sequence + 1) steps
        (rows.insertIfAbsent (taskId, sequence) ⟨operationId, plan.planId, plan.planRevisionId,
          registrySnapshotHash, step, stepHash step⟩)

/-- The Steps that a success of the execution or of its Operation completes. -/
def completedSteps (mode : ExecutionMode) (plan : PlanDraft) : List PlanStepDraft :=
  if mode = .multi then plan.steps.take 1 else plan.steps

/-- The call of `record_successful_execution_steps` in `reconcile_executor`, where it gets so
far. -/
def lineageCall (svc : Services) (state : WorkflowState) (w : World) (rows : Lineage) :
    Option (Except Raised Lineage) :=
  match state.externalSignal, svc.result, svc.summaries with
  | some (.boundary _), .ok result, .ok _ =>
    if executorOutcome result = .operationSucceeded ∨ executorOutcome result = .succeeded then do
      let latestOperation ← result.operations.getLast?
      let binding ← w.bindings.get state.activeTaskId
      let plan ← state.plan
      let mode ← state.executionMode
      let completed := completedSteps mode plan
      if binding.nextStepSequence < completed.length then none
      else
        some (match state.persisted with
          | none => .error (.keyError "plan_id")
          | some persisted => recordSuccessfulSteps stepHash state.activeTaskId
              latestOperation.operationId persisted svc.registrySnapshotHash
              (binding.nextStepSequence - completed.length) completed rows)
    else none
  | _, _, _ => none

/-- The session graph, with the rows. -/
structure LineageState where
  graph : GraphState := {}
  rows : Lineage := .empty

/-- The steps of a run. -/
inductive LineageAction
  | graph (action : GraphAction)
  /-- `reconcile_executor` is stopped after its rows are committed. -/
  | recorded (svc : Services)

/-- The call in the node that is next. -/
def LineageState.call? (s : LineageState) (svc : Services) : Option (Except Raised Lineage) :=
  if s.graph.next = some .reconcileExecutor then
    s.graph.values.workflow.bind fun wf => lineageCall stepHash svc wf s.graph.world s.rows
  else none

/-- The rows behind the call. -/
def LineageState.recorded (s : LineageState) (svc : Services) : Lineage :=
  match s.call? stepHash svc with
  | some (.ok rows) => rows
  | some (.error _) | none => s.rows

/-- The services of a node, with the outcome of the call. -/
def Services.withLineage (svc : Services) (call : Option (Except Raised Lineage)) : Services :=
  match call with
  | some outcome => { svc with lineage := outcome.map fun _ => () }
  | none => svc

/-- One step of a run. -/
def lineageStep (D : Deployment) (s : LineageState) : LineageAction → Option LineageState
  | .graph (.run config svc) =>
    (graphStep D s.graph (.run config (svc.withLineage (s.call? stepHash svc)))).map fun g =>
      ⟨g, s.recorded stepHash svc⟩
  | .graph (.stop config svc commits) =>
    (graphStep D s.graph (.stop config (svc.withLineage (s.call? stepHash svc)) commits)).map
      fun g =>
      ⟨g, if commits = 0 then s.rows else s.recorded stepHash svc⟩
  | .graph action => (graphStep D s.graph action).map fun g => ⟨g, s.rows⟩
  | .recorded svc =>
    match s.call? stepHash svc with
    | some (.ok rows) => some ⟨s.graph, rows⟩
    | some (.error _) | none => none

/-- The session graph with its rows as a transition system. -/
def lineageGraph (D : Deployment) : Machine LineageState LineageAction :=
  ⟨fun s => s.graph = {} ∧ s.rows = .empty, lineageStep stepHash D⟩

end

/-! ## The call in the node -/

section

variable {svc : Services} {wf : WorkflowState} {w : World} {rows : Lineage}
  {stepHash : PlanStepDraft → Sha256} {signal : ExecutorBoundarySignal}

end

end ExAgent.Graph
