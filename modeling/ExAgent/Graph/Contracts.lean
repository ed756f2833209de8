import ExAgent.Values
import ExAgent.Worker.Contracts

/-!
# The contracts of the workflow

The enumerations of `ex_agent/domain/enums.py`, the models of `ex_agent/domain/contracts.py` that
the workflow graph passes around, and what it reads of the Executor's replies
(`ex_agent/executor/contracts.py`). A model's validator is a field of its structure, so a value that
pydantic would refuse cannot be built; bounds on the length of a text are left out, since nothing
depends on them, and so are the descriptive fields no node reads.
-/

namespace ExAgent.Graph

/-- `Intent`. -/
inductive Intent
  | generalQa
  | dataAnalysisQa
  | dataAnalysisExecution
  | codeExecution
deriving DecidableEq

/-- `ExecutionMode`. -/
inductive ExecutionMode
  | single
  | multi
deriving DecidableEq

/-- The value of an execution mode. -/
def ExecutionMode.text : ExecutionMode → String
  | .single => "SINGLE"
  | .multi => "MULTI"

/-- `PlanningKind`. -/
inductive PlanningKind
  | fixedWorkflow
  | toolPlan
  | customCode
deriving DecidableEq

/-- `RiskLevel`. -/
inductive RiskLevel
  | low
  | medium
  | high
  | critical
deriving DecidableEq

/-- `recommended_action` of `RiskReview`. -/
inductive RecommendedAction
  | allow
  | warn
  | requireConfirmation
  | block
deriving DecidableEq

/-- `TaskStatus`. -/
inductive TaskStatus
  | accepted
  | classifying
  | answering
  | planning
  | waitingForApproval
  | revisingPlan
  | queuedForExecution
  | executing
  | waitingForExecutorEvent
  | finalizingExecution
  | generatingReport
  | succeeded
  | rejected
  | failed
  | cancelRequested
  | cancelled
deriving DecidableEq

/-- `TaskStatus.is_terminal`. -/
def TaskStatus.isTerminal : TaskStatus → Bool
  | .succeeded | .rejected | .failed | .cancelled => true
  | _ => false

/-- `PlanDecisionType`. -/
inductive PlanDecisionType
  | approve
  | revise
  | reject
deriving DecidableEq

/-- `ExecutorOutcome`. -/
inductive ExecutorOutcome
  | waiting
  | operationSucceeded
  | operationFailed
  | succeeded
  | failed
  | cancelled
deriving DecidableEq

/-- `MultiAction`. -/
inductive MultiAction
  | appendStep
  | requireReapproval
  | finalize
  | fail
deriving DecidableEq

/-- What a node or a service raises. -/
inductive Raised
  /-- A key the state does not have. -/
  | keyError (key : String)
  | typeError (message : String)
  | valueError (message : String)
  | lookupError (message : String)
  | permissionError (message : String)
  /-- `GraphInterrupt`: the node waits for an answer. -/
  | graphInterrupt
  /-- `SessionLockedError`. -/
  | sessionLocked (activeTaskId : Uuid)
  | assertionError
  /-- A pydantic model that does not validate. -/
  | validationError
  /-- Whatever a library, a service or the database raises. -/
  | other
deriving DecidableEq

/-- `IntentDecision`. -/
structure IntentDecision where
  intent : Intent
  requiresClarification : Bool := false
  clarificationQuestion : Option String := none
  requestedExecutionMode : Option ExecutionMode := none
  /-- `validate_clarification`. -/
  question_of_clarification : requiresClarification = true → clarificationQuestion ≠ none := by simp
deriving DecidableEq

/-- Without a clarification no question is needed. -/
theorem question_of_no_clarification : false = true → (none : Option String) ≠ none := by simp

/-- `RiskReview`. -/
structure RiskReview where
  level : RiskLevel
  summary : String
  recommendedAction : RecommendedAction
deriving DecidableEq

/-- `SkillReference`. -/
structure SkillReference where
  name : String
  version : String
  contentSha256 : Sha256
deriving DecidableEq

/-- `ToolReference`. -/
structure ToolReference where
  name : String
  version : String
  sourceSha256 : Sha256
deriving DecidableEq

/-- `PlanStepDraft`. -/
structure PlanStepDraft where
  sequence : ℕ
  title : String
  purpose : String
  planningKind : PlanningKind
  skill : Option SkillReference
  tool : Option ToolReference
  parameters : Dict
  selectionRationale : String
  expectedOutputs : List String
  validationCriteria : List String
  timeoutSeconds : ℕ
  customCode : Option String
  /-- `validate_lineage`, for registered tools. -/
  lineage_of_tool : planningKind = .toolPlan → skill ≠ none ∧ tool ≠ none ∧ customCode = none
  /-- `validate_lineage`, for free code. -/
  lineage_of_code : planningKind = .customCode →
    customCode ≠ none ∧ customCode ≠ some "" ∧ skill = none ∧ tool = none
deriving DecidableEq

/-- `PlanDraft`. -/
structure PlanDraft where
  objective : String
  strategySummary : String
  executionMode : ExecutionMode
  runtimeProfile : String
  /-- The first Step; `steps` has at least one. -/
  first : PlanStepDraft
  /-- The other Steps. -/
  rest : List PlanStepDraft
  assumptions : List String
  expectedArtifacts : List String
  /-- `validate_sequences`. -/
  sequences : (first :: rest).map PlanStepDraft.sequence = List.range (first :: rest).length
deriving DecidableEq

/-- `PlanDraft.steps`. -/
def PlanDraft.steps (p : PlanDraft) : List PlanStepDraft := p.first :: p.rest

/-- Plan-local sequences start at zero. -/
theorem PlanDraft.first_sequence (p : PlanDraft) : p.first.sequence = 0 := by
  have h := p.sequences
  rw [List.length_cons, List.range_succ_eq_map, List.map_cons] at h
  exact (List.cons.inj h).1

/-- `plan.model_copy(update={"steps": [step.model_copy(update={"sequence": 0})]})`. -/
def PlanDraft.withStep (p : PlanDraft) (step : PlanStepDraft) : PlanDraft :=
  { p with first := { step with sequence := 0 }, rest := [], sequences := rfl }

/-- `plan.model_copy(update={"execution_mode": mode})`. -/
def PlanDraft.withMode (p : PlanDraft) (mode : ExecutionMode) : PlanDraft :=
  { p with executionMode := mode }

/-- `WorkflowCandidate`. -/
structure WorkflowCandidate where
  workflowVersionId : Uuid
  name : String
  plan : PlanDraft
  publicPayloadHash : Sha256
  risk : Option RiskReview
deriving DecidableEq

/-- `PlanReviewDecision`. -/
structure PlanReviewDecision where
  decision : PlanDecisionType
  planRevisionId : Uuid
  planRevisionNumber : ℕ
  publicPayloadHash : Sha256
  feedback : Option String := none
  riskAcknowledged : Bool := false
deriving DecidableEq

/-- `WorkflowSelectionDecision`. -/
structure WorkflowSelectionDecision where
  workflowVersionId : Option Uuid
  proposalVersion : ℕ
  publicPayloadHash : Sha256
  inputValues : Dict
  riskAcknowledged : Bool := false
deriving DecidableEq

/-- `event_type` of `ExecutorBoundarySignal`. -/
inductive BoundaryType
  | operationCompleted
  | completed
deriving DecidableEq

/-- The text of a boundary. -/
def BoundaryType.ofText (text : String) : Option BoundaryType :=
  if text = "execution.operation_completed" then some .operationCompleted
  else if text = "execution.completed" then some .completed
  else none

/-- `ExecutorBoundarySignal`. -/
structure ExecutorBoundarySignal where
  executionId : Uuid
  eventId : Uuid
  eventSequence : ℕ
  eventType : BoundaryType
deriving DecidableEq

/-- `CancelRequestedSignal`. -/
structure CancelRequestedSignal where
  taskId : Uuid
  reason : Option String
deriving DecidableEq

/-- The action of a Worker delivery, as `SessionGraphAdapter` passes it to
`wait_external_signal`. -/
structure WorkerAction where
  taskId : Uuid
  commandId : Uuid
  event : Worker.ExecutorEvent
deriving DecidableEq

/-- What can answer an interrupt: the members of `ResumeSignal`, the action of a Worker delivery,
and a value that is none of them. -/
inductive Resume
  | clarification (answer : String)
  | workflowSelection (d : WorkflowSelectionDecision)
  | executionMode (mode : ExecutionMode)
  | riskConfirmation (confirmed : Bool)
  | planReview (d : PlanReviewDecision)
  | executorBoundary (s : ExecutorBoundarySignal)
  | cancelRequested (s : CancelRequestedSignal)
  | worker (a : WorkerAction)
  | malformed
deriving DecidableEq

/-- `external_signal` of the state. -/
inductive ExternalSignal
  | boundary (s : ExecutorBoundarySignal)
  | cancel (s : CancelRequestedSignal)
deriving DecidableEq

/-- `ExecutorState.status`; the Executor has more than those the agent tells apart. -/
inductive ExecutorStatus
  | succeeded
  | failed
  | cancelled
  | waitingForOperation
  | other (text : String)
deriving DecidableEq

/-- The statuses in which an Execution has ended. -/
def ExecutorStatus.isTerminal : ExecutorStatus → Bool
  | .succeeded | .failed | .cancelled => true
  | .waitingForOperation | .other _ => false

/-- `OperationResult.status`. -/
inductive OperationStatus
  | succeeded
  | failed
  | other (text : String)
deriving DecidableEq

/-- `ResultOperation`, with the `relative_path` of each Step's `result_ref`. -/
structure ResultOperation where
  operationId : Uuid
  status : OperationStatus
  errorMessage : Option String
  resultRefs : List String
deriving DecidableEq

/-- `ExecutionResult`. -/
structure ExecutionResult where
  executionId : Uuid
  status : ExecutorStatus
  version : ℕ
  operations : List ResultOperation
deriving DecidableEq

/-- `CommandResponse`. -/
structure CommandResponse where
  executionId : Uuid
  operationId : Option Uuid
  version : ℕ
deriving DecidableEq

/-- `ExecutorReconciliation`. -/
structure ExecutorReconciliation where
  outcome : ExecutorOutcome
  executionId : Uuid
  executionVersion : ℕ
  operationId : Option Uuid
  errorMessage : Option String
  resultRefs : List String
  resultSummaries : List String
deriving DecidableEq

/-- `MultiDecision`. -/
structure MultiDecision where
  action : MultiAction
  rationale : String
  nextStep : Option PlanStepDraft := none
  /-- `validate_action`. -/
  step_of_append : action = .appendStep → nextStep ≠ none := by simp
deriving DecidableEq

/-- A decision that fails needs no Step. -/
theorem step_of_fail :
    MultiAction.fail = .appendStep → (none : Option PlanStepDraft) ≠ none := by simp

/-- `PersistedPlan`. -/
structure PersistedPlan where
  planId : Uuid
  planRevisionId : Uuid
  planRevisionNumber : ℕ
  publicPayloadHash : Sha256
  compiledBundleId : Uuid
deriving DecidableEq

/-- `SubmissionReceipt`; `plan` comes with `persisted_plan`. -/
structure SubmissionReceipt where
  executionId : Uuid
  operationId : Uuid
  executionVersion : ℕ
  persistedPlan : Option (PlanDraft × PersistedPlan) := none
deriving DecidableEq

/-- The evidence of a report. -/
structure ReportEvidence where
  request : String
  plan : PlanDraft
  executionId : Uuid
  executorResult : ExecutionResult
  validatedResultSummaries : List String
deriving DecidableEq

/-- `executor_outcome`. -/
def executorOutcome (result : ExecutionResult) : ExecutorOutcome :=
  match result.status with
  | .succeeded => .succeeded
  | .failed => .failed
  | .cancelled => .cancelled
  | .waitingForOperation =>
    match result.operations.getLast? with
    | none => .waiting
    | some operation =>
      match operation.status with
      | .succeeded => .operationSucceeded
      | .failed => .operationFailed
      | .other _ => .waiting
  | .other _ => .waiting

/-- The outcomes that end an Execution are those of an Execution that has ended. -/
theorem executorOutcome_terminal {result : ExecutionResult}
    (h : executorOutcome result = .succeeded ∨ executorOutcome result = .failed ∨
      executorOutcome result = .cancelled) : result.status.isTerminal = true := by
  unfold executorOutcome at h
  cases hs : result.status with
  | succeeded | failed | cancelled => rfl
  | other text =>
    rw [hs] at h
    simp at h
  | waitingForOperation =>
    rw [hs] at h
    dsimp only at h
    split at h
    · simp at h
    · split at h <;> simp at h

end ExAgent.Graph
