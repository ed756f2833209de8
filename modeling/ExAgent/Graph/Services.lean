import ExAgent.Graph.Store

/-!
# The services of the session graph

`SessionWorkflowServices` of `agent/services.py`: the capabilities of
`ex_agent/application/capabilities/`, with the durable versions of `agent/effects/` where the
session graph overrides them. A service is a computation over the tables that reads what a node's
state and the outside world give it.
-/

namespace ExAgent.Graph

open Lib

/-- `validate_plan_execution_mode`. -/
def validatePlanExecutionMode (state : WorkflowState) (plan : PlanDraft) : Run Unit := do
  let expected ← need "execution_mode" state.executionMode
  .refuseIf (plan.executionMode ≠ expected) (.valueError
    ("Plan execution mode " ++ plan.executionMode.text ++
      " does not match selected execution mode " ++ expected.text))

/-! ## Planning -/

/-- `DurablePlans.persist`. -/
def persist (D : Deployment) (svc : Services) (state : WorkflowState) (plan : PlanDraft) :
    Run PersistedPlan := do
  validatePlanExecutionMode state plan
  let compiled ← .ofExcept (plan.steps.mapM (compileFile D state.activeTaskId))
  .ofExcept svc.files
  persistPlan D svc state.activeTaskId plan compiled state.revisionFeedback
    (state.persisted.elim 0 PersistedPlan.planRevisionNumber + 1)

/-- The candidate with a version. -/
def candidateOf (candidates : List WorkflowCandidate) (versionId : Uuid) :
    Option WorkflowCandidate :=
  candidates.find? fun item => item.workflowVersionId = versionId

/-- `PlanningCapability.load_selected_workflow`. -/
def loadSelected (D : Deployment) (svc : Services) (state : WorkflowState) :
    Run (PlanDraft × PersistedPlan) := do
  let selected ← need "selected_workflow_version_id" state.selectedWorkflowVersionId
  let versionId ← .demand selected (.valueError "badly formed hexadecimal UUID string")
  let candidate ← .demand (candidateOf (state.workflowCandidates.getD []) versionId)
    (.valueError "Selected Workflow was not in the proposed set")
  let version ← .ofExcept svc.workflowVersion
  .refuseIf (version.publicPayloadHash ≠ candidate.publicPayloadHash)
    (.valueError "Selected Workflow version changed after proposal")
  let bound ← .ofExcept svc.boundPlan
  let plan := bound.withMode .single
  let persisted ← persist D svc state plan
  pure (plan, persisted)

/-- `PlanningCapability.review_compiled_code_risk`. -/
def reviewCompiledCode (svc : Services) (state : WorkflowState) : Run RiskReview := do
  let _ ← need "plan_revision_id" state.persisted
  .ofExcept svc.codeReview

/-- `PlanningCapability.verify_approval_and_lock`. -/
def verifyApprovalAndLock (state : WorkflowState) : Run Unit := do
  .refuseIf (state.reviewAction ≠ some (some .approve)) (.valueError "Plan approval is required")
  let plan ← need "plan" state.plan
  validatePlanExecutionMode state plan
  lockSession state.activeTaskId
  updateStatus state.activeTaskId .queuedForExecution

/-! ## Execution -/

/-- `ExecutorEffectSender.send`. -/
def send (svc : Services) (taskId : Uuid) (request : ExecutorRequest) : Run EffectResponse := do
  .ofExcept svc.files
  post taskId request
  match request with
  | .report .. => do
    let artifactId ← .ofExcept svc.artifact
    pure (.artifact artifactId)
  | request => do
    let response ← .ofExcept svc.command
    .refuseIf (request.executionId? ≠ none ∧ request.executionId? ≠ some response.executionId)
      (.valueError "Executor response has another Execution ID")
    .refuseIf (request.startsOperation = true ∧ response.operationId = none)
      (.valueError "Executor response omitted Operation")
    pure (.command response.executionId response.version
      (if request.startsOperation then response.operationId else none))

/-- `SubmissionReceipt.model_validate(record.response)`. -/
def submissionReceipt (record : EffectRow) : Run SubmissionReceipt :=
  match record.response with
  | some (.command executionId executionVersion (some operationId)) =>
    pure ⟨executionId, operationId, executionVersion, none⟩
  | _ => .raise .validationError

/-- `prepare` of `DurableExecution.submit`. -/
def prepareSubmit (svc : Services) (state : WorkflowState) (mode : ExecutionMode)
    (planRevisionId : Uuid) : Run ExecutorRequest := do
  let rows ← .query fun w => .ok (w.approvedSteps planRevisionId)
  let rows := if mode = .multi then rows.take 1 else rows
  .refuseIf (rows = []) (.valueError "Execution requires approved Steps")
  .ofExcept svc.files
  pure (.submit mode state.runtimeProfile state.userId state.projectId state.sessionId
    state.activeTaskId state.selectedWorkflowVersionId (rows.map executorStep) rows.length)

/-- `DurableExecution.submit`. -/
def submit (D : Deployment) (svc : Services) (state : WorkflowState) : Run SubmissionReceipt := do
  let plan ← need "plan" state.plan
  validatePlanExecutionMode state plan
  let revision ← need "plan_revision_number" state.persisted
  let mode ← need "execution_mode" state.executionMode
  let record ← journalRun D state.activeTaskId
    (.submit state.activeTaskId revision.planRevisionNumber) .submit
    (.submit revision.planRevisionId revision.planRevisionNumber revision.publicPayloadHash
      state.runtimeProfile mode state.userId state.projectId state.sessionId
      state.selectedWorkflowVersionId plan)
    (prepareSubmit svc state mode revision.planRevisionId) (send svc state.activeTaskId)
  let receipt ← submissionReceipt record
  let next ← need "next_step_sequence" record.request.nextStepSequence?
  projectBinding state.activeTaskId receipt.executionId receipt.executionVersion
    (some receipt.operationId) (some next) true
  pure receipt

/-- `prepare` of `DurableExecution.append`. -/
def prepareAppend (D : Deployment) (svc : Services) (state : WorkflowState) (plan : PlanDraft)
    (executionId operationId : Uuid) : Run ExecutorRequest := do
  let persisted ← persist D svc state plan
  let rows ← .query fun w => .ok (w.approvedSteps persisted.planRevisionId)
  let binding ← bindingForTask state.activeTaskId
  .refuseIf (binding.executionId ≠ executionId ∨ binding.operationId ≠ operationId)
    (.valueError "Append input has a stale Execution binding")
  let row ← .demand rows.head? .other
  .ofExcept svc.files
  pure (.append binding.executionId binding.executionVersion
    { executorStep row with sequence := binding.nextStepSequence } (binding.nextStepSequence + 1)
    persisted plan)

/-- `DurableExecution.append`. -/
def append (D : Deployment) (svc : Services) (state : WorkflowState) (decision : MultiDecision) :
    Run SubmissionReceipt := do
  let mode ← need "execution_mode" state.executionMode
  .refuseIf (mode ≠ .multi) (.valueError "Only MULTI may append an Operation")
  let current ← need "plan" state.plan
  -- The graph's plan includes any user edits made during reapproval.
  let plan := current.withStep current.first
  let operationId ← need "current_operation_id" state.currentOperationId
  let executionId ← need "execution_id" state.executionId
  let revision ← need "plan_revision_id" state.persisted
  let record ← journalRun D state.activeTaskId (.append state.activeTaskId operationId) .append
    (.append executionId operationId revision.planRevisionId plan decision)
    (prepareAppend D svc state plan executionId operationId) (send svc state.activeTaskId)
  let receipt ← submissionReceipt record
  let next ← need "next_step_sequence" record.request.nextStepSequence?
  projectBinding state.activeTaskId receipt.executionId receipt.executionVersion
    (some receipt.operationId) (some next) false
  let stored ← need "persisted_plan" record.request.persistedPlan?
  pure { receipt with persistedPlan := some stored }

/-- `prepare` of `DurableExecution.lifecycle`. -/
def prepareLifecycle (state : WorkflowState) (kind : EffectKind) (executionId : Uuid)
    (reason : Option String) : Run ExecutorRequest := do
  let binding ← bindingForTask state.activeTaskId
  .refuseIf (binding.executionId ≠ executionId)
    (.valueError "Lifecycle input has another Execution")
  pure (if kind = .finalize then .finalize binding.executionId binding.executionVersion
    else .cancel binding.executionId state.userId reason)

/-- `DurableExecution.lifecycle`, for the kinds `finalize` and `cancel`. -/
def lifecycle (D : Deployment) (svc : Services) (state : WorkflowState) (kind : EffectKind)
    (key : EffectKey) (reason : Option String) : Run Unit := do
  let executionId ← need "execution_id" state.executionId
  let record ← journalRun D state.activeTaskId key kind
    (.lifecycle executionId state.userId reason)
    (prepareLifecycle state kind executionId reason) (send svc state.activeTaskId)
  match record.response with
  | some (.command executionId executionVersion _) =>
    projectBinding state.activeTaskId executionId executionVersion none none false
  | _ => .raise .assertionError

/-- `ExecutionCapability.reconcile_executor`. -/
def reconcile (svc : Services) (state : WorkflowState) (signal : ExecutorBoundarySignal) :
    Run ExecutorReconciliation := do
  let result ← .ofExcept svc.result
  let outcome := executorOutcome result
  let latestOperation := result.operations.getLast?
  let summaries ← .ofExcept svc.summaries
  -- A success must agree with the Steps that were sent.
  if outcome = .operationSucceeded ∨ outcome = .succeeded then do
    .refuseIf (latestOperation = none) (.valueError "Successful Executor result omitted Operation")
    let binding ← bindingForTask state.activeTaskId
    let plan ← need "plan" state.plan
    let mode ← need "execution_mode" state.executionMode
    let completed := if mode = .multi then plan.steps.take 1 else plan.steps
    .refuseIf (binding.nextStepSequence < completed.length)
      (.valueError "Executor Step lineage sequence is invalid")
    .ofExcept svc.lineage
  updateBinding state.activeTaskId result.version signal.eventSequence
  pure ⟨outcome, signal.executionId, result.version,
    latestOperation.map ResultOperation.operationId,
    latestOperation.bind ResultOperation.errorMessage,
    result.operations.flatMap ResultOperation.resultRefs, summaries⟩

/-- `ToolRegistry.canonicalize_step_lineage`. -/
def canonicalizeStepLineage (D : Deployment) (step : PlanStepDraft) : Except Raised PlanStepDraft :=
  if h : step.planningKind = .toolPlan then
    match step.skill, step.tool with
    | some skill, some tool =>
      match D.getTool tool.name with
      | none => .error (.keyError tool.name)
      | some manifest =>
        if manifest.skill.name ≠ skill.name then
          .error (.valueError "Planner returned mismatched Skill/Tool lineage")
        else .ok { step with
          skill := some manifest.skill
          tool := some manifest.tool
          lineage_of_tool := fun _ => ⟨nofun, nofun, (step.lineage_of_tool h).2.2⟩
          lineage_of_code := fun hc => absurd (h.symm.trans hc) nofun }
    | _, _ => .error (.valueError "Tool Step is missing Skill/Tool lineage")
  else .ok step

/-- The decision with its next Step replaced. -/
def MultiDecision.withNextStep (d : MultiDecision) (step : PlanStepDraft) : MultiDecision :=
  { d with nextStep := some step, step_of_append := fun _ => nofun }

/-- `ExecutionCapability.adapt_multi_plan`. -/
def adapt (D : Deployment) (svc : Services) (state : WorkflowState)
    (reconciliation : ExecutorReconciliation) : Run MultiDecision :=
  if reconciliation.outcome = .operationFailed ∧
      D.correctionLimit ≤ state.correctionCount.getD 0 then
    pure { action := .fail, rationale := "The automatic correction limit was reached.",
           step_of_append := step_of_fail }
  else do
    let _ ← need "planning_kind" state.planningKind
    let _ ← need "plan" state.plan
    let decision ← .ofExcept svc.multiDecision
    match decision.nextStep with
    | none => pure decision
    | some step => do
      let step ← .ofExcept (canonicalizeStepLineage D step)
      pure (decision.withNextStep step)

/-! ## Reporting -/

/-- `ReportingCapability.build_report_evidence`. -/
def reportEvidence (svc : Services) (state : WorkflowState) : Run ReportEvidence := do
  let executionId ← need "execution_id" state.executionId
  let result ← .ofExcept svc.result
  let summaries ← .ofExcept svc.summaries
  let plan ← need "plan" state.plan
  pure ⟨state.userMessage, plan, executionId, result, summaries⟩

/-- `DurableReporting.report`: the markdown and the artifact. -/
def report (D : Deployment) (svc : Services) (state : WorkflowState) (evidence : ReportEvidence) :
    Run (String × Uuid) := do
  let executionId ← need "execution_id" state.executionId
  .refuseIf (evidence.executorResult.status ≠ .succeeded ∨
      evidence.executorResult.executionId ≠ executionId)
    (.valueError "Report requires this Execution's success result")
  let record ← journalRun D state.activeTaskId (.report state.activeTaskId) .report
    (.report executionId evidence)
    (do
      let markdown ← .ofExcept svc.report
      pure (.report executionId ⟨state.activeTaskId, D.sha256 markdown, "md"⟩ markdown))
    (send svc state.activeTaskId)
  let markdown ← need "markdown" record.request.markdown?
  match record.response with
  | some (.artifact artifactId) => pure (markdown, artifactId)
  | _ => .raise .assertionError

/-- `SessionWorkflowServices.commit_terminal`; the offer of a promotion raises nothing. -/
def commitTerminal (state : WorkflowState) (status : TaskStatus) (message : String) : Run Unit :=
  terminal state.activeTaskId status message (some ⟨state.executionId, state.reportArtifactId⟩)

end ExAgent.Graph
