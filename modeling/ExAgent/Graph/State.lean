import Mathlib.Logic.Function.Basic
import ExAgent.Graph.Contracts

/-!
# The state of the session graph

`WorkflowState` of `ex_agent/application/state.py` and `SessionState` of `agent/graph/state.py`. The
keys of a `TypedDict` that a node may find missing are options; an empty string or an empty
dictionary that the code writes to clear a key is an absent value. The five keys of a persisted plan
are written together by `persisted_plan_updates` and are one field here. Messages, the schema
version and the audit texts are written and never read, and left out.

`Services` is what the world outside the graph answers while one node runs: the models, the
registry, the Executor and whoever answers an interrupt. A run of the graph takes any values of it.
-/

namespace ExAgent.Graph

/-- The nodes of `build_session_graph`. -/
inductive Node
  | beginTask
  | hydrateTurn
  | classifyIntent
  | clarifyRequest
  | answerGeneral
  | answerDataQuestion
  | commitAnswer
  | chooseExecutionMode
  | reviewRequestRisk
  | confirmRequestRisk
  | searchWorkflows
  | chooseWorkflow
  | loadSelectedWorkflow
  | buildPlan
  | compileAndPersistPlan
  | reviewCompiledCodeRisk
  | reviewPlan
  | verifyApproval
  | submitExecution
  | registerExecution
  | waitExternalSignal
  | reconcileExecutor
  | recordEventReceipt
  | adaptMultiPlan
  | appendOperation
  | finalizeExecution
  | cancelExecution
  | buildReportEvidence
  | generateReport
  | commitSuccess
  | commitRejected
  | commitBlocked
  | commitFailed
  | commitCancelled
deriving DecidableEq

/-- `TaskTurn`. -/
structure TaskTurn where
  userId : String
  projectId : String
  sessionId : Uuid
  activeTaskId : Uuid
  currentInputMessageId : Uuid
  userMessage : String
  runtimeProfile : String := "basic"
deriving DecidableEq

/-- `WorkflowState`. -/
structure WorkflowState where
  userId : String
  projectId : String
  sessionId : Uuid
  activeTaskId : Uuid
  currentInputMessageId : Uuid
  userMessage : String
  runtimeProfile : String
  phase : TaskStatus
  intentDecision : Option IntentDecision := none
  clarificationCount : Option ℕ := none
  planningKind : Option PlanningKind := none
  executionMode : Option ExecutionMode := none
  workflowCandidates : Option (List WorkflowCandidate) := none
  workflowProposalVersion : Option ℕ := none
  /-- The inner `none` is the empty string of a dynamic plan. -/
  selectedWorkflowVersionId : Option (Option Uuid) := none
  workflowInputValues : Option Dict := none
  plan : Option PlanDraft := none
  /-- `plan_id`, `plan_revision_id`, `plan_revision_number`, `plan_public_payload_hash` and
  `compiled_bundle_id`. -/
  persisted : Option PersistedPlan := none
  requestRisk : Option RiskReview := none
  codeRisk : Option RiskReview := none
  riskAcknowledged : Option Bool := none
  executionId : Option Uuid := none
  currentOperationId : Option Uuid := none
  lastExecutorEventSequence : Option ℕ := none
  correctionCount : Option ℕ := none
  executionFinalized : Option Bool := none
  executorReconciliation : Option ExecutorReconciliation := none
  answer : Option String := none
  reportMarkdown : Option String := none
  reportArtifactId : Option Uuid := none
  reportEvidence : Option ReportEvidence := none
  revisionFeedback : Option String := none
  /-- The inner `none` is the empty string of a dynamic plan. -/
  reviewAction : Option (Option PlanDecisionType) := none
  externalSignal : Option ExternalSignal := none
  multiAction : Option MultiAction := none
  multiDecision : Option MultiDecision := none
  terminalMessage : Option String := none

/-- The workflow of a Task that has just been admitted. -/
def WorkflowState.ofTurn (turn : TaskTurn) : WorkflowState where
  userId := turn.userId
  projectId := turn.projectId
  sessionId := turn.sessionId
  activeTaskId := turn.activeTaskId
  currentInputMessageId := turn.currentInputMessageId
  userMessage := turn.userMessage
  runtimeProfile := turn.runtimeProfile
  phase := .accepted

/-- A member of `api_receipts`. -/
structure ApiReceipt where
  taskId : Uuid
  fingerprint : Sha256
deriving DecidableEq

/-- `invocation_owner`. -/
inductive Owner
  | api (requestId : Uuid)
  | executor (commandId : Uuid)
deriving DecidableEq

/-- `SessionState`. -/
structure SessionState where
  turn : Option TaskTurn := none
  /-- `user_id`, `project_id` and `session_id`. -/
  identity : Option (String × String × Uuid) := none
  activeTaskId : Option Uuid := none
  executionId : Option Uuid := none
  workflow : Option WorkflowState := none
  taskRequests : Uuid → Option Sha256 := fun _ => none
  ewPending : Option WorkerAction := none
  ewReceipts : Uuid → Option Uuid := fun _ => none
  ewSequences : Uuid → Option ℕ := fun _ => none
  apiReceipts : Uuid → Option ApiReceipt := fun _ => none
  /-- The inner `none` is the empty dictionary of a Task that has just begun. -/
  invocationOwner : Option (Option Owner) := none

/-- `api_action` of the configuration: the admitted request an invocation is made for. -/
structure ApiAction where
  requestId : Uuid
  taskId : Uuid
  targetNode : Node
  fingerprint : Sha256
deriving DecidableEq

/-- The `configurable` part of a `RunnableConfig`. -/
structure Config where
  threadId : Uuid
  apiAction : Option ApiAction := none

/-- A row of `workflow_version`. -/
structure WorkflowVersion where
  publicPayloadHash : Sha256
  planPayload : PlanDraft
  /-- The keys and specifications of `input_contract`, as canonical text. -/
  inputContract : Dict

/-- A registered tool. -/
structure ToolManifest where
  skill : SkillReference
  tool : ToolReference
  source : String

/-- What is answered from outside while a node runs. -/
structure Services where
  /-- `interrupt` returns the answer; `none` says that there is none yet. -/
  resume : Option Resume := none
  /-- The structured output of the intent classifier. -/
  intentDecision : Except Raised IntentDecision := .error .other
  answer : Except Raised String := .error .other
  requestReview : Except Raised RiskReview := .error .other
  candidates : Except Raised (List WorkflowCandidate) := .error .other
  workflowVersion : Except Raised WorkflowVersion := .error .other
  /-- `bind_workflow_inputs` up to the mode it sets. -/
  boundPlan : Except Raised PlanDraft := .error .other
  /-- `PlannerAgent.plan`. -/
  plan : Except Raised PlanDraft := .error .other
  codeReview : Except Raised RiskReview := .error .other
  registrySnapshotHash : Sha256 := 0
  /-- `uuid4` for the row of a plan, a revision and a bundle. -/
  newPlanId : Uuid := 0
  newRevisionId : Uuid := 0
  newBundleId : Uuid := 0
  /-- Reading and restoring the source files in the shared store. -/
  files : Except Raised Unit := .ok ()
  /-- The Executor's reply to a POST of `/executions` or below. -/
  command : Except Raised CommandResponse := .error .other
  /-- The Executor's reply to a POST of a report, `ArtifactResponse`. -/
  artifact : Except Raised Uuid := .error .other
  /-- `ExecutorClient.result`. -/
  result : Except Raised ExecutionResult := .error .other
  /-- `validated_result_summaries`. -/
  summaries : Except Raised (List String) := .ok []
  /-- `record_successful_execution_steps`: the lineage rows of the promotion. -/
  lineage : Except Raised Unit := .ok ()
  /-- The structured output of the adaptation. -/
  multiDecision : Except Raised MultiDecision := .error .other
  /-- `generate_report_markdown`. -/
  report : Except Raised String := .error .other
  /-- `ExecutionBindings.register`, in the worker's own tables. -/
  register : Except Raised Unit := .ok ()

end ExAgent.Graph
