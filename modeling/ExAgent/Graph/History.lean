import ExAgent.Lib.History
import ExAgent.Graph.Topology

/-!
# What the log of a run says

The theorems about the graph speak of things that happened: a review that was checkpointed, a
decision that a node accepted, a revision that was persisted before. This module defines them as
facts about the log, without reference to the state the run is in, and shows that later entries keep
them.

`nodeRuns` is the list of the completed business nodes. Most notions are about it, so they do not
see the transactions a node commits; only the order of a revision and what was done with it is read
off the log itself.
-/

namespace ExAgent.Graph

open Lib

/-- A completed node of a Task, with what it was given and the workflow before and after. -/
structure NodeRun where
  node : Node
  svc : Services
  before : WorkflowState
  after : WorkflowState

/-- The completed node of an entry. -/
def Event.nodeRun? : Event → Option NodeRun
  | .ran n svc before after =>
    match before.workflow, after.workflow with
    | some b, some a => some ⟨n, svc, b, a⟩
    | _, _ => none
  | .persisted .. | .sent .. | .closed .. => none

/-- The completed nodes of a log. -/
def nodeRuns (log : List Event) : List NodeRun := log.filterMap Event.nodeRun?

/-- A completed node is the last of the log's. -/
theorem nodeRuns_concat_ran (log : List Event) {n : Node} {svc : Services} {s s' : SessionState}
    {wf wf' : WorkflowState} (h : s.workflow = some wf) (h' : s'.workflow = some wf') :
    nodeRuns (log ++ [.ran n svc s s']) = nodeRuns log ++ [⟨n, svc, wf, wf'⟩] := by
  simp [nodeRuns, List.filterMap_append, Event.nodeRun?, h, h']

/-- The completed nodes after one more entry. -/
theorem nodeRuns_concat (log : List Event) (e : Event) :
    nodeRuns (log ++ [e]) = nodeRuns log ++ e.nodeRun?.toList := by
  cases h : e.nodeRun? <;> simp [nodeRuns, List.filterMap_append, h]

/-- Any other entry leaves the completed nodes as they are. -/
theorem nodeRuns_concat_of_none (log : List Event) {e : Event} (h : e.nodeRun? = none) :
    nodeRuns (log ++ [e]) = nodeRuns log := by
  simp [nodeRuns, List.filterMap_append, h]

/-- The node that completed last. -/
def lastNode (rs : List NodeRun) : Option Node := rs.getLast?.map NodeRun.node

/-- The last node is that of the last run. -/
@[simp]
theorem lastNode_concat (rs : List NodeRun) (r : NodeRun) : lastNode (rs ++ [r]) = some r.node := by
  simp [lastNode]

/-! ## The risk of the request -/

/-- The request of a Task was reviewed. -/
def RequestReview (rs : List NodeRun) (taskId : Uuid) (review : RiskReview) : Prop :=
  ∃ r ∈ rs, r.node = .reviewRequestRisk ∧ r.before.activeTaskId = taskId ∧
    r.svc.requestReview = .ok review

/-- The user confirmed the risk of a Task's request. -/
def RiskConfirmed (rs : List NodeRun) (taskId : Uuid) : Prop :=
  ∃ r ∈ rs, r.node = .confirmRequestRisk ∧ r.before.activeTaskId = taskId ∧
    r.svc.resume = some (.riskConfirmation true)

/-- No review of the Task's request found a risk that was not confirmed. -/
def Cleared (rs : List NodeRun) (taskId : Uuid) : Prop :=
  ∀ review, RequestReview rs taskId review →
    review.level ≠ .critical ∧ (review.level = .high → RiskConfirmed rs taskId)

/-- A confirmation stays. -/
theorem RiskConfirmed.concat {rs : List NodeRun} {taskId : Uuid} (h : RiskConfirmed rs taskId)
    (r : NodeRun) : RiskConfirmed (rs ++ [r]) taskId := by
  obtain ⟨r', hr', h⟩ := h
  exact ⟨r', List.mem_append_left _ hr', h⟩

/-- A review among the runs so far, or the run that is added is one. -/
theorem requestReview_concat {rs : List NodeRun} {r : NodeRun} {taskId : Uuid} {review : RiskReview}
    (h : RequestReview (rs ++ [r]) taskId review) :
    RequestReview rs taskId review ∨
      (r.node = .reviewRequestRisk ∧ r.svc.requestReview = .ok review) := by
  obtain ⟨r', hr', hn, ht, hok⟩ := h
  rcases List.mem_append.mp hr' with hr' | hr'
  · exact .inl ⟨r', hr', hn, ht, hok⟩
  · obtain rfl := List.mem_singleton.mp hr'
    exact .inr ⟨hn, hok⟩

/-- Clearance stays when another node completes. -/
theorem Cleared.concat {rs : List NodeRun} {taskId : Uuid} (h : Cleared rs taskId) {r : NodeRun}
    (hr : r.node ≠ .reviewRequestRisk) : Cleared (rs ++ [r]) taskId := by
  intro review hreview
  rcases requestReview_concat hreview with hreview | ⟨hn, -⟩
  · exact ⟨(h review hreview).1, fun hh => ((h review hreview).2 hh).concat r⟩
  · exact absurd hn hr

/-! ## Code reviews, approvals, reconciliations -/

/-- The review of a compiled revision. -/
def NodeRun.codeReview? (r : NodeRun) (revisionId : Uuid) : Option RiskReview :=
  if r.node = .reviewCompiledCodeRisk ∧
      r.before.persisted.map PersistedPlan.planRevisionId = some revisionId then
    match r.svc.codeReview with
    | .ok review => some review
    | .error _ => none
  else none

/-- The last review of a revision. -/
def lastCodeReview (rs : List NodeRun) (revisionId : Uuid) : Option RiskReview :=
  lastSome (fun r => r.codeReview? revisionId) rs

/-- The approval of a plan of a Task. -/
def NodeRun.approval? (r : NodeRun) (taskId : Uuid) : Option PlanReviewDecision :=
  if r.node = .reviewPlan ∧ r.before.activeTaskId = taskId then
    match r.svc.resume with
    | some (.planReview d) => if d.decision = .approve then some d else none
    | _ => none
  else none

/-- The approval of a Task that was accepted last. -/
def lastApproval (rs : List NodeRun) (taskId : Uuid) : Option PlanReviewDecision :=
  lastSome (fun r => r.approval? taskId) rs

/-- The status that a reconciliation found for an execution. -/
def NodeRun.reconciled? (r : NodeRun) (executionId : Uuid) : Option ExecutorStatus :=
  if r.node = .reconcileExecutor ∧
      (r.before.externalSignal.bind ExternalSignal.boundary?).map
        ExecutorBoundarySignal.executionId = some executionId then
    match r.svc.result with
    | .ok result => some result.status
    | .error _ => none
  else none

/-- The last status reconciled for an execution. -/
def lastReconciled (rs : List NodeRun) (executionId : Uuid) : Option ExecutorStatus :=
  lastSome (fun r => r.reconciled? executionId) rs

/-- Only a code review is one. -/
theorem lastCodeReview_concat {rs : List NodeRun} {r : NodeRun}
    (hr : r.node ≠ .reviewCompiledCodeRisk) (revisionId : Uuid) :
    lastCodeReview (rs ++ [r]) revisionId = lastCodeReview rs revisionId :=
  lastSome_concat_none rs (by simp [NodeRun.codeReview?, hr])

/-- Only a plan review approves. -/
theorem lastApproval_concat {rs : List NodeRun} {r : NodeRun} (hr : r.node ≠ .reviewPlan)
    (taskId : Uuid) : lastApproval (rs ++ [r]) taskId = lastApproval rs taskId :=
  lastSome_concat_none rs (by simp [NodeRun.approval?, hr])

/-- Only a reconciliation reconciles. -/
theorem lastReconciled_concat {rs : List NodeRun} {r : NodeRun} (hr : r.node ≠ .reconcileExecutor)
    (executionId : Uuid) : lastReconciled (rs ++ [r]) executionId = lastReconciled rs executionId :=
  lastSome_concat_none rs (by simp [NodeRun.reconciled?, hr])

/-! ## Approved revisions -/

/-- `review_plan` accepted a decision APPROVE for exactly this revision after it was persisted, with
the risk acknowledged where `risk` is HIGH. -/
def PlanApproval (log : List Event) (taskId : Uuid) (p : PersistedPlan)
    (risk : RiskReview) : Prop :=
  ∃ revision svc before after wf d,
    [Event.persisted p.planRevisionId revision, .ran .reviewPlan svc before after].Sublist log ∧
    before.workflow = some wf ∧ wf.activeTaskId = taskId ∧ svc.resume = some (.planReview d) ∧
    d.decision = .approve ∧ d.planRevisionId = p.planRevisionId ∧
    d.planRevisionNumber = p.planRevisionNumber ∧ d.publicPayloadHash = p.publicPayloadHash ∧
    (risk.level = .high → d.riskAcknowledged = true)

/-- `choose_workflow` accepted the user's choice of a proposed candidate, by its payload hash. -/
structure Selects (taskId : Uuid) (candidate : WorkflowCandidate) (d : WorkflowSelectionDecision)
    (e : Event) : Prop where
  /-- The node, and the answer it was given. -/
  node : ∃ svc before after wf, e = .ran .chooseWorkflow svc before after ∧
    before.workflow = some wf ∧ wf.activeTaskId = taskId ∧
    svc.resume = some (.workflowSelection d) ∧
    candidateOf (wf.workflowCandidates.getD []) candidate.workflowVersionId = some candidate
  /-- The choice is of this version and of this payload. -/
  version : d.workflowVersionId = some candidate.workflowVersionId
  hash : d.publicPayloadHash = candidate.publicPayloadHash

/-- `load_selected_workflow` compiled the revision from a candidate. -/
def Loads (taskId : Uuid) (candidate : WorkflowCandidate) (p : PersistedPlan) (e : Event) : Prop :=
  ∃ svc before after wf wf', e = .ran .loadSelectedWorkflow svc before after ∧
    before.workflow = some wf ∧ after.workflow = some wf' ∧ wf.activeTaskId = taskId ∧
    wf.selectedWorkflowVersionId = some (some candidate.workflowVersionId) ∧
    candidateOf (wf.workflowCandidates.getD []) candidate.workflowVersionId = some candidate ∧
    wf'.persisted = some p

/-- The revision was compiled from a candidate the user had selected, with the risk acknowledged by
the selection where `risk` is HIGH. -/
def WorkflowApproval (log : List Event) (taskId : Uuid) (p : PersistedPlan) (risk : RiskReview) :
    Prop :=
  ∃ candidate d chosen loaded, [chosen, loaded].Sublist log ∧ Selects taskId candidate d chosen ∧
    Loads taskId candidate p loaded ∧ (risk.level = .high → d.riskAcknowledged = true)

/-- An approval stays. -/
theorem PlanApproval.mono {log log' : List Event} {taskId : Uuid} {p : PersistedPlan}
    {risk : RiskReview} (h : PlanApproval log taskId p risk) (hlog : log.Sublist log') :
    PlanApproval log' taskId p risk := by
  obtain ⟨revision, svc, before, after, wf, d, hsub, h⟩ := h
  exact ⟨revision, svc, before, after, wf, d, hsub.trans hlog, h⟩

/-- A selection that was compiled stays. -/
theorem WorkflowApproval.mono {log log' : List Event} {taskId : Uuid} {p : PersistedPlan}
    {risk : RiskReview} (h : WorkflowApproval log taskId p risk) (hlog : log.Sublist log') :
    WorkflowApproval log' taskId p risk := by
  obtain ⟨candidate, d, chosen, loaded, hsub, h⟩ := h
  exact ⟨candidate, d, chosen, loaded, hsub.trans hlog, h⟩

/-! ## Reviewed Steps -/

/-- `review_compiled_code_risk` reviewed a revision. -/
def Reviews (revisionId : Uuid) (review : RiskReview) (e : Event) : Prop :=
  ∃ svc before after wf, e = .ran .reviewCompiledCodeRisk svc before after ∧
    before.workflow = some wf ∧
    wf.persisted.map PersistedPlan.planRevisionId = some revisionId ∧ svc.codeReview = .ok review

/-- A Step is one of a persisted revision that was then reviewed as less than CRITICAL. Its sequence
is left out: the plan-local one starts at zero, and the Executor's is assigned at submission. -/
def GatedStep (log : List Event) (step : ExecutorStep) : Prop :=
  ∃ revisionId revision review e row,
    [Event.persisted revisionId revision, e].Sublist log ∧ Reviews revisionId review e ∧
    review.level ≠ .critical ∧ row ∈ revision.steps ∧
    { step with sequence := 0 } = { executorStep row with sequence := 0 }

/-- The Step of an append. -/
def ExecutorRequest.appended? : ExecutorRequest → Option ExecutorStep
  | .append _ _ step _ _ _ => some step
  | .submit .. | .finalize .. | .cancel .. | .report .. => none

/-- The rows of a revision's Steps, as `approved_steps` returns them. -/
def Revision.ordered (r : Revision) : List PlanStep :=
  r.steps.insertionSort fun a b => a.sequence ≤ b.sequence

/-- A Step is the first one of the revision that was approved last. -/
def FirstApproved (log : List Event) (taskId : Uuid) (step : ExecutorStep) : Prop :=
  ∃ d revision row, lastApproval (nodeRuns log) taskId = some d ∧
    Event.persisted d.planRevisionId revision ∈ log ∧ revision.ordered.head? = some row ∧
    step = { executorStep row with sequence := step.sequence }

/-- The digest of an append's inputs tells its revision: two revisions give two digests. This is all
that is used of SHA-256 having no collisions. -/
def Deployment.TellsRevision (D : Deployment) : Prop :=
  ∀ ⦃x op revisionId x' op' revisionId' : Uuid⦄ ⦃plan plan' : PlanDraft⦄ ⦃d d' : MultiDecision⦄,
    D.inputDigest (.append x op revisionId plan d) =
      D.inputDigest (.append x' op' revisionId' plan' d') → revisionId = revisionId'

/-! ## Decisions of a MULTI execution -/

/-- The automatic corrections of a MULTI execution are used up. -/
def CorrectionsSpent (D : Deployment) (wf : WorkflowState) : Prop :=
  wf.executorReconciliation.map ExecutorReconciliation.outcome = some .operationFailed ∧
    D.correctionLimit ≤ wf.correctionCount.getD 0

/-- The node decides to append a Step. -/
def AppendsStep (D : Deployment) (n : Node) (svc : Services) (wf : WorkflowState) : Prop :=
  n = .adaptMultiPlan ∧ ¬CorrectionsSpent D wf ∧
    svc.multiDecision.toOption.map MultiDecision.action = some .appendStep

/-- Some node decided to append a Step. -/
def AppendsDirectly (D : Deployment) (rs : List NodeRun) : Prop :=
  ∃ r ∈ rs, AppendsStep D r.node r.svc r.before

/-! ## Ended executions -/

/-- What a node decides that leads to a terminal commit without an end of the execution: a rejected
reapproval, a CRITICAL review of a revision of a submitted Task, a MULTI decision FAIL (also the one
of the correction limit), and a completed Operation of an execution that is not MULTI. -/
def LeavesOpen (D : Deployment) (n : Node) (svc : Services) (wf : WorkflowState) : Prop :=
  match n with
  | .reviewPlan => wf.executionId ≠ none ∧
      (svc.resume.bind Resume.planReview?).map PlanReviewDecision.decision = some .reject
  | .reviewCompiledCodeRisk => wf.executionId ≠ none ∧
      svc.codeReview.toOption.map RiskReview.level = some .critical
  | .adaptMultiPlan => CorrectionsSpent D wf ∨
      svc.multiDecision.toOption.map MultiDecision.action = some .fail
  | .reconcileExecutor => wf.executionMode ≠ some .multi ∧
      (svc.result.toOption.map executorOutcome = some .operationSucceeded ∨
        svc.result.toOption.map executorOutcome = some .operationFailed)
  | _ => False

instance (D : Deployment) (wf : WorkflowState) : Decidable (CorrectionsSpent D wf) :=
  inferInstanceAs (Decidable (_ ∧ _))

instance (D : Deployment) (n : Node) (svc : Services) (wf : WorkflowState) :
    Decidable (AppendsStep D n svc wf) :=
  inferInstanceAs (Decidable (_ ∧ _))

instance (D : Deployment) (n : Node) (svc : Services) (wf : WorkflowState) :
    Decidable (LeavesOpen D n svc wf) :=
  match n with
  | .reviewPlan | .reviewCompiledCodeRisk | .reconcileExecutor =>
    inferInstanceAs (Decidable (_ ∧ _))
  | .adaptMultiPlan => inferInstanceAs (Decidable (_ ∨ _))
  | .beginTask | .hydrateTurn | .classifyIntent | .clarifyRequest | .answerGeneral
  | .answerDataQuestion | .commitAnswer | .chooseExecutionMode | .reviewRequestRisk
  | .confirmRequestRisk | .searchWorkflows | .chooseWorkflow | .loadSelectedWorkflow | .buildPlan
  | .compileAndPersistPlan | .verifyApproval | .submitExecution | .registerExecution
  | .waitExternalSignal | .recordEventReceipt | .appendOperation | .finalizeExecution
  | .cancelExecution | .buildReportEvidence | .generateReport | .commitSuccess | .commitRejected
  | .commitBlocked | .commitFailed | .commitCancelled => instDecidableFalse

/-- Some node decided so. -/
def LeftOpen (D : Deployment) (rs : List NodeRun) : Prop :=
  ∃ r ∈ rs, LeavesOpen D r.node r.svc r.before

/-- The last status reconciled for the execution is one of an ended execution. -/
def Ended (rs : List NodeRun) (executionId : Uuid) : Prop :=
  ∃ status, lastReconciled rs executionId = some status ∧ status.isTerminal = true

end ExAgent.Graph
