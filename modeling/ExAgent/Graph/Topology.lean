import ExAgent.Lib.Transition
import ExAgent.Graph.Nodes

/-!
# The topology of the session graph, and its runs

The routes of `ex_agent/graph/routes.py` and the edges of `ex_agent/graph/topology.py`, wired as
`build_session_graph` does: `begin_task` in front, `register_execution` behind `submit_execution`,
and `record_event_receipt` between `reconcile_executor` and its route.

A run of the graph is a run of `sessionGraph`. LangGraph checkpoints after every node, so a state of
the run is a checkpoint (the values of the session and the node that is next) with the tables as
they are. A step admits a new Task, gives the graph its turn, runs the next node to its end, or
stops it half-way: the process dies or a call fails after some of the node's transactions have
committed. The checkpoint moves only when the node completes, so a node that was stopped or has
raised runs again from the same state.
-/

namespace ExAgent.Graph

open Lib

/-! ## Routes -/

/-- `state[key]` in a route. -/
def routeKey {α : Type} (key : String) : Option α → Except Raised α
  | some a => .ok a
  | none => .error (.keyError key)

/-- `route_intent`. -/
def routeIntent (state : WorkflowState) : Except Raised Node := do
  let decision ← routeKey "intent_decision" state.intentDecision
  if decision.requiresClarification then return .clarifyRequest
  match decision.intent with
  | .generalQa => return .answerGeneral
  | .dataAnalysisQa => return .answerDataQuestion
  | .dataAnalysisExecution => return .reviewRequestRisk
  | .codeExecution =>
    return if decision.requestedExecutionMode.isSome then .reviewRequestRisk
      else .chooseExecutionMode

/-- `route_request_risk`. -/
def routeRequestRisk (state : WorkflowState) : Except Raised Node := do
  let review ← routeKey "request_risk" state.requestRisk
  if review.level = .critical then return .commitBlocked
  if review.level = .high ∧ state.riskAcknowledged.getD false = false then
    return .confirmRequestRisk
  let decision ← routeKey "intent_decision" state.intentDecision
  return if decision.intent = .dataAnalysisExecution then .searchWorkflows else .buildPlan

/-- `route_workflow_search`. -/
def routeWorkflowSearch (state : WorkflowState) : Except Raised Node :=
  .ok (if state.workflowCandidates.getD [] = [] then .buildPlan else .chooseWorkflow)

/-- `route_workflow_decision`. -/
def routeWorkflowDecision (state : WorkflowState) : Except Raised Node :=
  .ok (if state.selectedWorkflowVersionId.join.isSome then .loadSelectedWorkflow else .buildPlan)

/-- `route_code_risk`. -/
def routeCodeRisk (state : WorkflowState) : Except Raised Node := do
  let risk ← routeKey "code_risk" state.codeRisk
  if risk.level = .critical then return .commitBlocked
  let kind ← routeKey "planning_kind" state.planningKind
  if kind = .fixedWorkflow then
    if risk.level = .high ∧ state.riskAcknowledged.getD false = false then return .reviewPlan
    return .verifyApproval
  return .reviewPlan

/-- `route_plan_review`. -/
def routePlanReview (state : WorkflowState) : Except Raised Node := do
  let action ← routeKey "review_action" state.reviewAction
  if action = some .revise then return .buildPlan
  if action = some .reject then return .commitRejected
  return .verifyApproval

/-- `route_approved_execution`. -/
def routeApprovedExecution (state : WorkflowState) : Except Raised Node :=
  .ok (if state.executionId.isSome then .appendOperation else .submitExecution)

/-- `route_external_signal`. -/
def routeExternalSignal (state : WorkflowState) : Except Raised Node := do
  let signal ← routeKey "external_signal" state.externalSignal
  return if signal.cancel?.isSome then .cancelExecution else .reconcileExecutor

/-- `route_reconciliation`. -/
def routeReconciliation (state : WorkflowState) : Except Raised Node := do
  let result ← routeKey "executor_reconciliation" state.executorReconciliation
  if result.outcome = .waiting then return .waitExternalSignal
  if result.outcome = .succeeded then return .buildReportEvidence
  if result.outcome = .cancelled then return .commitCancelled
  let mode ← routeKey "execution_mode" state.executionMode
  if mode = .multi ∧ (result.outcome = .operationSucceeded ∨ result.outcome = .operationFailed) then
    return .adaptMultiPlan
  return .commitFailed

/-- `route_multi_action`. -/
def routeMultiAction (state : WorkflowState) : Except Raised Node := do
  let action ← routeKey "multi_action" state.multiAction
  match action with
  | .appendStep => return .appendOperation
  | .requireReapproval => return .compileAndPersistPlan
  | .finalize => return .finalizeExecution
  | .fail => return .commitFailed

/-- The conditional edges. -/
def routeOf : Node → Option (WorkflowState → Except Raised Node)
  | .classifyIntent => some routeIntent
  | .reviewRequestRisk | .confirmRequestRisk => some routeRequestRisk
  | .searchWorkflows => some routeWorkflowSearch
  | .chooseWorkflow => some routeWorkflowDecision
  | .reviewCompiledCodeRisk => some routeCodeRisk
  | .reviewPlan => some routePlanReview
  | .verifyApproval => some routeApprovedExecution
  | .waitExternalSignal => some routeExternalSignal
  | .recordEventReceipt => some routeReconciliation
  | .adaptMultiPlan => some routeMultiAction
  | _ => none

/-- The plain edges; `none` is `END`. -/
def edgeOf : Node → Option Node
  | .beginTask => some .hydrateTurn
  | .hydrateTurn | .clarifyRequest => some .classifyIntent
  | .answerGeneral | .answerDataQuestion => some .commitAnswer
  | .chooseExecutionMode => some .reviewRequestRisk
  | .buildPlan => some .compileAndPersistPlan
  | .compileAndPersistPlan | .loadSelectedWorkflow => some .reviewCompiledCodeRisk
  | .submitExecution => some .registerExecution
  | .registerExecution | .appendOperation | .finalizeExecution | .cancelExecution =>
    some .waitExternalSignal
  | .reconcileExecutor => some .recordEventReceipt
  | .buildReportEvidence => some .generateReport
  | .generateReport => some .commitSuccess
  | _ => none

/-- The node after a node. -/
def successor (n : Node) (s : SessionState) : Except Raised (Option Node) :=
  match routeOf n with
  | none => .ok (edgeOf n)
  | some route =>
    match s.workflow with
    | none => .error (.keyError "workflow")
    | some workflow => (route workflow).map some

/-! ## Runs -/

/-- A node with its outgoing edge: LangGraph writes the checkpoint when both have succeeded. -/
def superstep (D : Deployment) (config : Config) (svc : Services) (n : Node) (s : SessionState) :
    Run (SessionState × Option Node) := do
  let after ← runNode D config svc n s
  let next ← .ofExcept (successor n after)
  pure (after, next)

/-- A checkpoint, and the tables. -/
structure GraphState where
  world : World := {}
  values : SessionState := {}
  next : Option Node := none

/-- The steps of a run. -/
inductive GraphAction
  /-- A new Task is admitted. -/
  | accept (taskId : Uuid)
  /-- A new turn: the graph is entered at `START`. -/
  | start (turn : TaskTurn)
  /-- The next node runs. -/
  | run (config : Config) (svc : Services)
  /-- The next node is stopped after some of its transactions. -/
  | stop (config : Config) (svc : Services) (commits : ℕ)

/-- The checkpoint after a node. -/
def GraphState.checkpoint (s : GraphState) (n : Node) (svc : Services) (w : World)
    (after : SessionState) (next : Option Node) : GraphState where
  world := w.logged (.ran n svc s.values after)
  values := after
  next := next

/-- One step of a run. -/
def graphStep (D : Deployment) (s : GraphState) : GraphAction → Option GraphState
  | .accept taskId =>
    if s.values.taskRequests taskId ≠ none then none
      else some { s with world := s.world.accept taskId }
  | .start turn => some { s with
      values := { s.values with turn := some turn }
      next := some .beginTask }
  | .run config svc => s.next.map fun n =>
      let o := superstep D config svc n s.values s.world
      match o.result with
      | .ok (after, next) => s.checkpoint n svc o.final after next
      | .error _ => { s with world := o.final }
  | .stop config svc commits => s.next.bind fun n =>
      ((superstep D config svc n s.values).stoppedAt s.world commits).map fun w =>
        { s with world := w }

/-- The session graph as a transition system. -/
def sessionGraph (D : Deployment) : Machine GraphState GraphAction := ⟨fun s => s = {}, graphStep D⟩

end ExAgent.Graph
