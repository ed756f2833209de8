import ExAgent.Graph.Services

/-!
# The nodes of the session graph

The business nodes of `ex_agent/graph/node_groups/`, which map the workflow of a Task to its next
value, and the nodes the session graph adds around them (`agent/graph/nodes.py`): `begin_task`,
`wait_external_signal`, `register_execution` and `record_event_receipt`. `lift_node` runs a business
node on the workflow of the session, and `with_api_receipt` stamps the receipt of an API request at
the nodes that take input.
-/

namespace ExAgent.Graph

open Lib

/-- `interrupt` followed by `validate_resume_signal`. -/
def resumeSignal (svc : Services) : Run Resume := do
  let raw ← .demand svc.resume .graphInterrupt
  match raw with
  | .worker _ | .malformed => .raise .validationError
  | signal => pure signal

/-- `persisted_plan_updates`. -/
def WorkflowState.withPersistedPlan (state : WorkflowState) (plan : PlanDraft)
    (persisted : PersistedPlan) : WorkflowState :=
  { state with plan := some plan, persisted := some persisted }

/-! ## Conversation -/

/-- `hydrate_turn`. -/
def hydrateTurn (state : WorkflowState) : Run WorkflowState := do
  updateStatus state.activeTaskId .classifying
  pure { state with
    phase := .classifying
    clarificationCount := some (state.clarificationCount.getD 0)
    correctionCount := some 0
    riskAcknowledged := some false }

/-- `classify_intent`. -/
def classifyIntent (svc : Services) (state : WorkflowState) : Run WorkflowState := do
  let decision ← .ofExcept svc.intentDecision
  let state := { state with intentDecision := some decision }
  match decision.intent with
  | .codeExecution => pure { state with
      planningKind := some .customCode
      executionMode := decision.requestedExecutionMode.or state.executionMode }
  | .dataAnalysisExecution => pure { state with
      planningKind := some .toolPlan
      executionMode := decision.requestedExecutionMode.or state.executionMode }
  | .generalQa | .dataAnalysisQa => pure state

/-- The answer of a `ClarificationAnswer`. -/
def Resume.clarification? : Resume → Option String
  | .clarification answer => some answer
  | _ => none

/-- `clarify_request`. -/
def clarifyRequest (svc : Services) (state : WorkflowState) : Run WorkflowState := do
  let _ ← need "intent_decision" state.intentDecision
  let signal ← resumeSignal svc
  let answer ← .demand signal.clarification? (.typeError "ClarificationAnswer is required")
  pure { state with
    userMessage := state.userMessage ++ "\n\nClarification: " ++ answer
    clarificationCount := some (state.clarificationCount.getD 0 + 1) }

/-- `answer_general` and `answer_data_question`, which differ in their prompt. -/
def answerQuestion (svc : Services) (state : WorkflowState) : Run WorkflowState := do
  updateStatus state.activeTaskId .answering
  let answer ← .ofExcept svc.answer
  pure { state with phase := .answering, answer := some answer }

/-- `commit_answer`. -/
def commitAnswer (state : WorkflowState) : Run WorkflowState := do
  let answer ← need "answer" state.answer
  terminal state.activeTaskId .succeeded answer none
  pure { state with phase := .succeeded }

/-! ## Planning -/

/-- The mode of an `ExecutionModeDecision`. -/
def Resume.executionMode? : Resume → Option ExecutionMode
  | .executionMode mode => some mode
  | _ => none

/-- `choose_execution_mode`. -/
def chooseExecutionMode (svc : Services) (state : WorkflowState) : Run WorkflowState := do
  let signal ← resumeSignal svc
  let mode ← .demand signal.executionMode? (.typeError "ExecutionModeDecision is required")
  pure { state with executionMode := some mode, planningKind := some .customCode }

/-- `review_request_risk`. -/
def reviewRequestRisk (svc : Services) (state : WorkflowState) : Run WorkflowState := do
  let review ← .ofExcept svc.requestReview
  pure { state with requestRisk := some review }

/-- The answer of a `RiskConfirmationDecision`. -/
def Resume.riskConfirmation? : Resume → Option Bool
  | .riskConfirmation confirmed => some confirmed
  | _ => none

/-- `confirm_request_risk`. -/
def confirmRequestRisk (svc : Services) (state : WorkflowState) : Run WorkflowState := do
  let review ← need "request_risk" state.requestRisk
  let signal ← resumeSignal svc
  let confirmed ← .demand signal.riskConfirmation?
    (.typeError "RiskConfirmationDecision is required")
  if confirmed then pure { state with riskAcknowledged := some true }
  else pure { state with requestRisk := some { review with level := .critical } }

/-- `search_workflows`. -/
def searchWorkflows (svc : Services) (state : WorkflowState) : Run WorkflowState := do
  let candidates ← .ofExcept svc.candidates
  pure { state with
    workflowCandidates := some candidates
    workflowProposalVersion := some 1
    executionMode := some (state.executionMode.getD .multi)
    planningKind := some .toolPlan }

/-- The decision of a workflow selection. -/
def Resume.workflowSelection? : Resume → Option WorkflowSelectionDecision
  | .workflowSelection d => some d
  | _ => none

/-- The checks of `choose_workflow` on a selected version. -/
def checkSelection (signal : WorkflowSelectionDecision) (candidates : List WorkflowCandidate)
    (versionId : Uuid) : Run Unit := do
  let candidate ← .demand (candidateOf candidates versionId)
    (.valueError "Workflow was not in the proposed set")
  .refuseIf (signal.publicPayloadHash ≠ candidate.publicPayloadHash)
    (.valueError "Stale Workflow payload decision")
  .refuseIf (candidate.risk.map RiskReview.level = some .high ∧ signal.riskAcknowledged = false)
    (.valueError "HIGH risk Workflow requires acknowledgement")

/-- `choose_workflow`. -/
def chooseWorkflow (svc : Services) (state : WorkflowState) : Run WorkflowState := do
  let proposal ← need "workflow_proposal_version" state.workflowProposalVersion
  let candidates ← need "workflow_candidates" state.workflowCandidates
  let raw ← resumeSignal svc
  let signal ← .demand raw.workflowSelection? (.typeError "WorkflowSelectionDecision is required")
  .refuseIf (signal.proposalVersion ≠ proposal) (.valueError "Stale Workflow proposal decision")
  match signal.workflowVersionId with
  | some versionId => do
    -- The version comes with its approval.
    checkSelection signal candidates versionId
    pure { state with
      selectedWorkflowVersionId := some (some versionId)
      workflowInputValues := some signal.inputValues
      executionMode := some .single
      planningKind := some .fixedWorkflow
      reviewAction := some (some .approve)
      riskAcknowledged := some signal.riskAcknowledged }
  | none =>
    -- No version is chosen, so a plan is made of Tools.
    pure { state with
      selectedWorkflowVersionId := some none
      workflowInputValues := some signal.inputValues
      executionMode := some (state.executionMode.getD .multi)
      planningKind := some .toolPlan
      reviewAction := some none
      riskAcknowledged := some signal.riskAcknowledged }

/-- `load_selected_workflow`. -/
def loadSelectedWorkflow (D : Deployment) (svc : Services) (state : WorkflowState) :
    Run WorkflowState := do
  let (plan, persisted) ← loadSelected D svc state
  pure (state.withPersistedPlan plan persisted)

/-- `RiskPrerequisiteMiddleware.abefore_agent`, with `request_risk_allowed` of
`_planner_context`. -/
def checkRiskPrerequisite (review : RiskReview) : Run Unit :=
  .refuseIf (review.recommendedAction = .block)
    (.permissionError "Planner request risk gate is not satisfied")

/-- `build_plan`. -/
def buildPlan (svc : Services) (state : WorkflowState) : Run WorkflowState := do
  updateStatus state.activeTaskId .planning
  let review ← need "request_risk" state.requestRisk
  let _ ← need "planning_kind" state.planningKind
  let _ ← need "execution_mode" state.executionMode
  checkRiskPrerequisite review
  let plan ← .ofExcept svc.plan
  pure { state with phase := .planning, plan := some plan }

/-- `compile_and_persist_plan`. -/
def compileAndPersistPlan (D : Deployment) (svc : Services) (state : WorkflowState) :
    Run WorkflowState := do
  let plan ← need "plan" state.plan
  let persisted ← persist D svc state plan
  pure (state.withPersistedPlan plan persisted)

/-- `review_compiled_code_risk`. -/
def reviewCompiledCodeRisk (svc : Services) (state : WorkflowState) : Run WorkflowState := do
  let review ← reviewCompiledCode svc state
  pure { state with codeRisk := some review }

/-- The decision of a plan review. -/
def Resume.planReview? : Resume → Option PlanReviewDecision
  | .planReview d => some d
  | _ => none

/-- `review_plan`. -/
def reviewPlan (svc : Services) (state : WorkflowState) : Run WorkflowState := do
  let revision ← need "plan_revision_id" state.persisted
  let _ ← need "plan" state.plan
  let risk ← need "code_risk" state.codeRisk
  let raw ← resumeSignal svc
  let signal ← .demand raw.planReview? (.typeError "PlanReviewDecision is required")
  -- The decision must be on the revision that is persisted.
  .refuseIf (signal.planRevisionId ≠ revision.planRevisionId)
    (.valueError "Stale Plan revision decision")
  .refuseIf (signal.planRevisionNumber ≠ revision.planRevisionNumber)
    (.valueError "Stale Plan revision number")
  .refuseIf (signal.publicPayloadHash ≠ revision.publicPayloadHash)
    (.valueError "Stale Plan payload decision")
  .refuseIf (signal.decision = .approve ∧ risk.level = .high ∧ signal.riskAcknowledged = false)
    (.valueError "HIGH risk Plan requires acknowledgement")
  pure { state with
    reviewAction := some (some signal.decision)
    revisionFeedback := some (signal.feedback.getD "")
    riskAcknowledged := some signal.riskAcknowledged }

/-- `verify_approval`. -/
def verifyApproval (state : WorkflowState) : Run WorkflowState := do
  verifyApprovalAndLock state
  pure { state with phase := .queuedForExecution }

/-! ## Execution -/

/-- `submit_execution`. -/
def submitExecution (D : Deployment) (svc : Services) (state : WorkflowState) :
    Run WorkflowState := do
  let receipt ← submit D svc state
  pure { state with
    phase := .waitingForExecutorEvent
    executionId := some receipt.executionId
    currentOperationId := some receipt.operationId }

/-- The Executor's signal in the state. -/
def ExternalSignal.boundary? : ExternalSignal → Option ExecutorBoundarySignal
  | .boundary s => some s
  | .cancel _ => none

/-- The cancellation in the state. -/
def ExternalSignal.cancel? : ExternalSignal → Option CancelRequestedSignal
  | .boundary _ => none
  | .cancel s => some s

/-- `reconcile_executor`. -/
def reconcileExecutor (svc : Services) (state : WorkflowState) : Run WorkflowState := do
  let external ← need "external_signal" state.externalSignal
  let signal ← .demand external.boundary? .validationError
  let result ← reconcile svc state signal
  pure { state with
    executorReconciliation := some result
    lastExecutorEventSequence := some signal.eventSequence }

/-- `adapt_multi_plan`. Plan-local sequences start at zero; the Executor's global sequence is
assigned at submission. -/
def adaptMultiPlan (D : Deployment) (svc : Services) (state : WorkflowState) :
    Run WorkflowState := do
  let reconciliation ← need "executor_reconciliation" state.executorReconciliation
  let decision ← adapt D svc state reconciliation
  let state := { state with
    multiAction := some decision.action
    multiDecision := some decision
    correctionCount := if reconciliation.outcome = .operationFailed
      then some (state.correctionCount.getD 0 + 1) else state.correctionCount }
  match decision.nextStep with
  | none => pure state
  | some step => do
    let plan ← need "plan" state.plan
    pure { state with plan := some (plan.withStep step) }

/-- `append_operation`. -/
def appendOperation (D : Deployment) (svc : Services) (state : WorkflowState) :
    Run WorkflowState := do
  let decision ← need "multi_decision" state.multiDecision
  let receipt ← append D svc state decision
  let state := { state with currentOperationId := some receipt.operationId }
  match receipt.persistedPlan with
  | none => pure state
  | some (plan, persisted) => pure (state.withPersistedPlan plan persisted)

/-- `finalize_execution`. -/
def finalizeExecution (D : Deployment) (svc : Services) (state : WorkflowState) :
    Run WorkflowState := do
  lifecycle D svc state .finalize (.finalize state.activeTaskId) none
  pure { state with executionFinalized := some true }

/-- `cancel_execution`. -/
def cancelExecution (D : Deployment) (svc : Services) (state : WorkflowState) :
    Run WorkflowState := do
  let external ← need "external_signal" state.externalSignal
  let signal ← .demand external.cancel? .validationError
  lifecycle D svc state .cancel (.cancel state.activeTaskId) signal.reason
  pure { state with phase := .cancelRequested }

/-! ## Terminal nodes -/

/-- `build_report_evidence`. -/
def buildReportEvidence (svc : Services) (state : WorkflowState) : Run WorkflowState := do
  let evidence ← reportEvidence svc state
  pure { state with phase := .generatingReport, reportEvidence := some evidence }

/-- `generate_report`. -/
def generateReport (D : Deployment) (svc : Services) (state : WorkflowState) :
    Run WorkflowState := do
  let evidence ← need "report_evidence" state.reportEvidence
  let (markdown, artifactId) ← report D svc state evidence
  pure { state with reportMarkdown := some markdown, reportArtifactId := some artifactId }

/-- `commit_success`. -/
def commitSuccess (state : WorkflowState) : Run WorkflowState := do
  let message ← need "report_markdown" state.reportMarkdown
  commitTerminal state .succeeded message
  pure { state with phase := .succeeded }

/-- The terminal nodes that close a Task with a message of their own. -/
def commitWith (state : WorkflowState) (status : TaskStatus) (message : String) :
    Run WorkflowState := do
  commitTerminal state status message
  pure { state with phase := status, terminalMessage := some message }

/-- `commit_rejected`. -/
def commitRejected (state : WorkflowState) : Run WorkflowState :=
  commitWith state .rejected "실행 계획이 거절되어 작업을 종료했습니다."

/-- `commit_blocked`. -/
def commitBlocked (state : WorkflowState) : Run WorkflowState := do
  let review ← need "request_risk" (state.codeRisk.or state.requestRisk)
  commitWith state .failed ("위험 판정으로 작업을 차단했습니다: " ++ review.summary)

/-- `commit_failed`. -/
def commitFailed (state : WorkflowState) : Run WorkflowState := do
  let result ← need "executor_reconciliation" state.executorReconciliation
  commitWith state .failed
    ((result.errorMessage.filter fun m => m ≠ "").getD "코드 실행에 실패했습니다.")

/-- `commit_cancelled`. -/
def commitCancelled (state : WorkflowState) : Run WorkflowState :=
  commitWith state .cancelled "Executor 취소 완료를 확인했습니다."

/-! ## The nodes of the session -/

/-- `begin_task`. -/
def beginTask (D : Deployment) (config : Config) (s : SessionState) : Run SessionState := do
  let turn ← need "turn" s.turn
  .refuseIf (config.threadId ≠ turn.sessionId) (.valueError "thread_id must equal session_id")
  .refuseIf (s.identity ≠ none ∧ s.identity ≠ some (turn.userId, turn.projectId, turn.sessionId))
    (.valueError "Session ownership cannot change")
  .refuseIf (∃ previous ∈ s.workflow, previous.phase.isTerminal = false)
    (.valueError "The session already has an unfinished task")
  .refuseIf (s.taskRequests turn.activeTaskId ≠ none)
    (.valueError "Task ID has already been admitted")
  pure { s with
    identity := some (turn.userId, turn.projectId, turn.sessionId)
    activeTaskId := some turn.activeTaskId
    executionId := none
    workflow := some (.ofTurn turn)
    taskRequests := Function.update s.taskRequests turn.activeTaskId (some (D.fingerprint turn))
    ewPending := none
    invocationOwner := some none }

/-- `lift_node`: business nodes run without the worker's receipts. -/
def liftNode (node : WorkflowState → Run WorkflowState) (s : SessionState) : Run SessionState := do
  let workflow ← need "workflow" s.workflow
  let workflow ← node workflow
  pure { s with workflow := some workflow, executionId := workflow.executionId }

/-- `WorkerBoundaryNodes.register_execution`. -/
def registerExecution (svc : Services) (s : SessionState) : Run SessionState := do
  let executionId ← need "execution_id" s.executionId
  .ofExcept svc.register
  pure { s with
    ewSequences := Function.update s.ewSequences executionId
      (some ((s.ewSequences executionId).getD 0)) }

/-- The worker's half of `wait_external_signal`: the event of a delivery. -/
def acceptEvent (s : SessionState) (workflow : WorkflowState) (action : WorkerAction) :
    Run SessionState := do
  .refuseIf (some action.taskId ≠ s.activeTaskId)
    (.valueError "Invalid worker action task identity")
  .refuseIf (some action.event.executionId ≠ s.executionId)
    (.valueError "Invalid worker action execution identity")
  .refuseIf (action.event.eventSequence ≤ (s.ewSequences action.event.executionId).getD 0)
    (.valueError "Worker action sequence is already applied")
  let eventType ← .demand (BoundaryType.ofText action.event.eventType) .validationError
  -- No external effects here: acceptance checkpoints before reconcile.
  pure { s with
    ewPending := some action
    invocationOwner := some (some (.executor action.commandId))
    workflow := some { workflow with externalSignal := some (.boundary
      ⟨action.event.executionId, action.event.eventId, action.event.eventSequence, eventType⟩) } }

/-- `WorkerBoundaryNodes.wait_external_signal`. -/
def waitExternalSignal (svc : Services) (s : SessionState) : Run SessionState := do
  let raw ← .demand svc.resume .graphInterrupt
  let workflow ← need "workflow" s.workflow
  match raw with
  | .cancelRequested signal => do
    .refuseIf (some signal.taskId ≠ s.activeTaskId) (.valueError "Cancel task identity mismatch")
    pure { s with
      workflow := some { workflow with externalSignal := some (.cancel signal) }
      ewPending := none }
  | .worker action => acceptEvent s workflow action
  | _ => .raise (.valueError "Invalid worker action task identity")

/-- `WorkerBoundaryNodes.record_event_receipt`. -/
def recordEventReceipt (s : SessionState) : Run SessionState := do
  let action ← need "event" s.ewPending
  pure { s with
    ewReceipts := Function.update s.ewReceipts action.commandId (some action.event.eventId)
    ewSequences := Function.update s.ewSequences action.event.executionId
      (some action.event.eventSequence) }

/-- `INPUT_NODES`. -/
def Node.isInput : Node → Bool
  | .beginTask | .clarifyRequest | .chooseExecutionMode | .confirmRequestRisk | .chooseWorkflow
  | .reviewPlan | .waitExternalSignal => true
  | _ => false

/-- `with_api_receipt` on the update of an input node. -/
def stampReceipt (config : Config) (name : Node) (before after : SessionState) : Run SessionState :=
  match config.apiAction with
  | none => pure after
  | some action =>
    if action.targetNode ≠ name then pure after
    else do
      .refuseIf (some action.taskId ≠ after.activeTaskId) (.valueError "API receipt Task mismatch")
      let receipt : ApiReceipt := ⟨action.taskId, action.fingerprint⟩
      match before.apiReceipts action.requestId with
      | some stored => do
        .refuseIf (stored ≠ receipt) (.valueError "API receipt identity mismatch")
        pure after
      | none =>
        pure { after with
          apiReceipts := Function.update before.apiReceipts action.requestId (some receipt)
          invocationOwner := some (some (.api action.requestId)) }

/-- The business nodes. -/
def businessNode (D : Deployment) (svc : Services) : Node → WorkflowState → Run WorkflowState
  | .hydrateTurn => hydrateTurn
  | .classifyIntent => classifyIntent svc
  | .clarifyRequest => clarifyRequest svc
  | .answerGeneral | .answerDataQuestion => answerQuestion svc
  | .commitAnswer => commitAnswer
  | .chooseExecutionMode => chooseExecutionMode svc
  | .reviewRequestRisk => reviewRequestRisk svc
  | .confirmRequestRisk => confirmRequestRisk svc
  | .searchWorkflows => searchWorkflows svc
  | .chooseWorkflow => chooseWorkflow svc
  | .loadSelectedWorkflow => loadSelectedWorkflow D svc
  | .buildPlan => buildPlan svc
  | .compileAndPersistPlan => compileAndPersistPlan D svc
  | .reviewCompiledCodeRisk => reviewCompiledCodeRisk svc
  | .reviewPlan => reviewPlan svc
  | .verifyApproval => verifyApproval
  | .submitExecution => submitExecution D svc
  | .reconcileExecutor => reconcileExecutor svc
  | .adaptMultiPlan => adaptMultiPlan D svc
  | .appendOperation => appendOperation D svc
  | .finalizeExecution => finalizeExecution D svc
  | .cancelExecution => cancelExecution D svc
  | .buildReportEvidence => buildReportEvidence svc
  | .generateReport => generateReport D svc
  | .commitSuccess => commitSuccess
  | .commitRejected => commitRejected
  | .commitBlocked => commitBlocked
  | .commitFailed => commitFailed
  | .commitCancelled => commitCancelled
  -- The session's own nodes are not business nodes.
  | .beginTask | .registerExecution | .waitExternalSignal | .recordEventReceipt => pure

/-- The function of a node before its receipt. -/
def nodeBody (D : Deployment) (config : Config) (svc : Services) (n : Node) (s : SessionState) :
    Run SessionState :=
  match n with
  | .beginTask => beginTask D config s
  | .registerExecution => registerExecution svc s
  | .waitExternalSignal => waitExternalSignal svc s
  | .recordEventReceipt => recordEventReceipt s
  | n => liftNode (businessNode D svc n) s

/-- A node of the session graph. -/
def runNode (D : Deployment) (config : Config) (svc : Services) (n : Node) (s : SessionState) :
    Run SessionState := do
  let updated ← nodeBody D config svc n s
  if n.isInput then stampReceipt config n s updated else pure updated

end ExAgent.Graph
