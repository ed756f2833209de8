import ExAgent.Graph.Transactions

/-!
# The invariant of the session graph

One invariant carries the theorems about approval, risk gates and terminal commits. Its part about
the active Task (`TaskInv`) depends on the node that is next. `Stage` lists, node by node, what the
log and the workflow say there: which risk reviews and confirmations lie behind, that the revision
in the state is stored, reviewed and approved, or how the Executor was last reconciled. The other
fields keep the tables in step with the checkpoint. A revision or a request that the checkpoint does
not know yet is the work of the node that is next, left there by a run of it that was stopped.

The log has two properties of its own: every Step that was sent was reviewed, unless a MULTI
decision appended it directly, and every Task that was closed with an execution had it ended, unless
a node decided to leave it open.
-/

namespace ExAgent.Graph

open Lib Prog

/-! ## What holds at a node -/

/-- The number of the revision in the state. -/
def WorkflowState.revisionNumber (wf : WorkflowState) : ℕ :=
  wf.persisted.elim 0 PersistedPlan.planRevisionNumber

/-- The payload of a revision that the next node may have left behind. -/
def Pending (wf : WorkflowState) (payload : PlanDraft) : Node → Prop
  | .loadSelectedWorkflow => True
  | .compileAndPersistPlan => wf.plan = some payload
  | .appendOperation => ∃ plan, wf.plan = some plan ∧ payload = plan.withStep plan.first
  | _ => False

/-- No plan yet. -/
structure NoPlan (wf : WorkflowState) : Prop where
  persisted : wf.persisted = none
  executionId : wf.executionId = none
  planningKind : wf.planningKind ≠ some .fixedWorkflow

/-- The request of the Task has not been reviewed. -/
def Unreviewed (rs : List NodeRun) (taskId : Uuid) : Prop :=
  ∀ review, ¬RequestReview rs taskId review

/-- A fixed workflow runs in SINGLE mode. -/
def FixedSingle (wf : WorkflowState) : Prop :=
  wf.planningKind = some .fixedWorkflow → wf.executionMode = some .single

/-- A fixed workflow that is planned anew is not approved. -/
def FixedRevised (wf : WorkflowState) : Prop :=
  wf.planningKind = some .fixedWorkflow → wf.reviewAction ≠ some (some .approve)

/-- The user's choice, still in the state. -/
def Selected (log : List Event) (wf : WorkflowState) : Prop :=
  ∃ candidate d e, e ∈ log ∧ Selects wf.activeTaskId candidate d e ∧
    wf.selectedWorkflowVersionId = some (some candidate.workflowVersionId) ∧
    candidateOf (wf.workflowCandidates.getD []) candidate.workflowVersionId = some candidate ∧
    wf.riskAcknowledged = some d.riskAcknowledged

/-- The revision in the state was compiled from the user's choice. -/
def Loaded (log : List Event) (wf : WorkflowState) : Prop :=
  ∃ p candidate d chosen loaded, wf.persisted = some p ∧ [chosen, loaded].Sublist log ∧
    Selects wf.activeTaskId candidate d chosen ∧ Loads wf.activeTaskId candidate p loaded ∧
    wf.riskAcknowledged = some d.riskAcknowledged

/-- The plan in the state is the payload of its revision, where it is no fixed workflow. -/
def Matching (w : World) (wf : WorkflowState) : Prop :=
  ∃ p r, wf.persisted = some p ∧ w.revisions.get p.planRevisionId = some r ∧
    (wf.planningKind ≠ some .fixedWorkflow → wf.plan = some r.publicPayload)

/-- The revision in the state was reviewed as less than CRITICAL. -/
structure Reviewed (w : World) (wf : WorkflowState) (p : PersistedPlan) (r : Revision)
    (review : RiskReview) : Prop where
  persisted : wf.persisted = some p
  stored : w.revisions.get p.planRevisionId = some r
  codeRisk : wf.codeRisk = some review
  last : lastCodeReview (nodeRuns w.log) p.planRevisionId = some review
  level : review.level ≠ .critical
  gated : ∃ e, [Event.persisted p.planRevisionId r, e].Sublist w.log ∧
    Reviews p.planRevisionId review e

/-- The revision in the state was approved in a plan review, and no other one was approved since. -/
def ApprovedByReview (log : List Event) (wf : WorkflowState) (p : PersistedPlan)
    (review : RiskReview) : Prop :=
  PlanApproval log wf.activeTaskId p review ∧
    ∃ d, lastApproval (nodeRuns log) wf.activeTaskId = some d ∧ d.planRevisionId = p.planRevisionId

/-- The revision in the state was approved in a plan review or with the choice of its workflow. -/
def Approved (log : List Event) (wf : WorkflowState) (p : PersistedPlan) (review : RiskReview) :
    Prop :=
  ApprovedByReview log wf p review ∨
    (wf.planningKind = some .fixedWorkflow ∧ WorkflowApproval log wf.activeTaskId p review)

/-- A Task that is with the Executor. -/
structure InExecution (w : World) (wf : WorkflowState) : Prop where
  cleared : Cleared (nodeRuns w.log) wf.activeTaskId
  single : FixedSingle wf
  submitted : wf.executionId ≠ none

/-- The execution of a Task that is about to be closed has ended, or was left open. -/
def Closing (D : Deployment) (rs : List NodeRun) (wf : WorkflowState) : Prop :=
  ∀ x, wf.executionId = some x → Ended rs x ∨ LeftOpen D rs

/-- What the log and the workflow say before a node. -/
def Stage (D : Deployment) (w : World) (wf : WorkflowState) : Node → Prop
  | .beginTask => True
  | .hydrateTurn => NoPlan wf ∧ Unreviewed (nodeRuns w.log) wf.activeTaskId
  | .classifyIntent | .clarifyRequest | .chooseExecutionMode | .reviewRequestRisk =>
    NoPlan wf ∧ Unreviewed (nodeRuns w.log) wf.activeTaskId ∧ wf.riskAcknowledged = some false
  | .answerGeneral | .answerDataQuestion | .commitAnswer => NoPlan wf
  | .confirmRequestRisk => NoPlan wf ∧
    ∀ review, RequestReview (nodeRuns w.log) wf.activeTaskId review → review.level = .high
  | .searchWorkflows | .chooseWorkflow => NoPlan wf ∧ Cleared (nodeRuns w.log) wf.activeTaskId
  | .loadSelectedWorkflow =>
    (wf.planningKind = some .fixedWorkflow ∧ wf.executionMode = some .single) ∧
      Cleared (nodeRuns w.log) wf.activeTaskId ∧ Selected w.log wf
  | .buildPlan | .compileAndPersistPlan =>
    Cleared (nodeRuns w.log) wf.activeTaskId ∧ FixedSingle wf ∧ FixedRevised wf
  | .reviewCompiledCodeRisk =>
    Cleared (nodeRuns w.log) wf.activeTaskId ∧ FixedSingle wf ∧ Matching w wf ∧
      (wf.planningKind = some .fixedWorkflow → wf.reviewAction = some (some .approve) →
        Loaded w.log wf)
  | .reviewPlan =>
    Cleared (nodeRuns w.log) wf.activeTaskId ∧ FixedSingle wf ∧ Matching w wf ∧
      ∃ p r review, Reviewed w wf p r review
  | .verifyApproval =>
    Cleared (nodeRuns w.log) wf.activeTaskId ∧ FixedSingle wf ∧ Matching w wf ∧
      ∃ p r review, Reviewed w wf p r review ∧
        (wf.reviewAction = some (some .approve) → Approved w.log wf p review)
  | .submitExecution =>
    Cleared (nodeRuns w.log) wf.activeTaskId ∧ FixedSingle wf ∧ wf.executionId = none ∧
      ∃ p r review, Reviewed w wf p r review ∧ Approved w.log wf p review
  | .appendOperation =>
    InExecution w wf ∧
      ((lastNode (nodeRuns w.log) = some .adaptMultiPlan ∧ AppendsDirectly D (nodeRuns w.log)) ∨
        (lastNode (nodeRuns w.log) = some .verifyApproval ∧ (wf.executionMode = some .multi →
          Matching w wf ∧ wf.planningKind ≠ some .fixedWorkflow ∧
            ∃ p r review, Reviewed w wf p r review ∧ ApprovedByReview w.log wf p review)))
  | .registerExecution | .waitExternalSignal | .finalizeExecution | .cancelExecution =>
    InExecution w wf
  | .reconcileExecutor => InExecution w wf ∧
    ∃ signal, wf.externalSignal = some (.boundary signal) ∧
      wf.executionId = some signal.executionId
  | .recordEventReceipt => InExecution w wf ∧
    ∃ result x rec, wf.executionId = some x ∧
      lastReconciled (nodeRuns w.log) x = some result.status ∧
      wf.executorReconciliation = some rec ∧ rec.outcome = executorOutcome result ∧
      (wf.executionMode ≠ some .multi → executorOutcome result = .operationSucceeded ∨
        executorOutcome result = .operationFailed → LeftOpen D (nodeRuns w.log))
  | .adaptMultiPlan => InExecution w wf ∧ wf.executionMode = some .multi
  | .buildReportEvidence | .generateReport | .commitSuccess | .commitRejected | .commitBlocked
  | .commitFailed | .commitCancelled => Closing D (nodeRuns w.log) wf

/-! ## The invariant -/

/-- The request a submission of this state prepares: Steps of the revision in the state. -/
structure SubmitRequest (w : World) (wf : WorkflowState) (request : ExecutorRequest) : Prop where
  steps : ∀ p, wf.persisted = some p → ∀ step ∈ request.steps,
    ∃ row ∈ w.approvedSteps p.planRevisionId, step = executorStep row
  appended : request.appended? = none

/-- The request an append of this state prepares: the first Step of the state's plan, and the
revision that was persisted for it. -/
def AppendRequest (D : Deployment) (w : World) (wf : WorkflowState) (request : ExecutorRequest) :
    Prop :=
  ∃ x v step next p plan row r sequence, request =
    .append x v step next p (plan.withStep plan.first) ∧
    wf.plan = some plan ∧ firstRow D wf.activeTaskId plan = .ok row ∧
    step = { executorStep row with sequence := sequence } ∧ NextRevision w wf p r

/-- An append request in the journal: an earlier one, or that of the append that is next. -/
def AppendRow (D : Deployment) (w : World) (wf : WorkflowState) (n : Node)
    (row : EffectRow) : Prop :=
  ∃ x op revisionId plan d, row.inputSha256 = D.inputDigest (.append x op revisionId plan d) ∧
    ((∃ r, w.revisions.get revisionId = some r ∧ r.taskId = wf.activeTaskId ∧
        r.revisionNumber < wf.revisionNumber) ∨
      (n = .appendOperation ∧ wf.persisted.map PersistedPlan.planRevisionId = some revisionId ∧
        AppendRequest D w wf row.request))

/-- The active Task, before a node. -/
structure TaskInv (D : Deployment) (w : World) (wf : WorkflowState) (n : Node) : Prop where
  /-- A revision the state does not know yet is the work of the next node. -/
  bound : ∀ (revisionId : Uuid) (r : Revision), w.revisions.get revisionId = some r →
    r.taskId = wf.activeTaskId → r.revisionNumber ≤ wf.revisionNumber ∨
      (r.revisionNumber = wf.revisionNumber + 1 ∧ Pending wf r.publicPayload n)
  /-- The revision in the state is stored. -/
  current : ∀ p, wf.persisted = some p → ∃ r, w.revisions.get p.planRevisionId = some r ∧
    p = r.persistedPlan p.planRevisionId ∧ r.taskId = wf.activeTaskId
  /-- A submit request in the journal before the state has an execution is that of this revision. -/
  submits : wf.executionId = none → ∀ k row, w.effects.get (.submit wf.activeTaskId k) = some row →
    n = .submitExecution ∧ SubmitRequest w wf row.request
  /-- Append requests in the journal. -/
  appends : ∀ op row, w.effects.get (.append wf.activeTaskId op) = some row → AppendRow D w wf n row
  /-- The Task's row has the state's execution, once the submission is checkpointed. -/
  execution : n ≠ .submitExecution → ∀ t, w.tasks.get wf.activeTaskId = some t →
    t.executionId = wf.executionId
  stage : Stage D w wf n

/-- Nothing refers to the Task yet. -/
structure Untouched (w : World) (taskId : Uuid) : Prop where
  revisions : ∀ (revisionId : Uuid) (r : Revision), w.revisions.get revisionId = some r →
    r.taskId ≠ taskId
  submits : ∀ k, w.effects.get (.submit taskId k) = none
  appends : ∀ op, w.effects.get (.append taskId op) = none
  task : ∀ t, w.tasks.get taskId = some t → t.executionId = none
  runs : ∀ r ∈ nodeRuns w.log, r.before.activeTaskId ≠ taskId

/-- What an entry of the log has with respect to those before it. -/
def Sound (D : Deployment) (pre : List Event) : Event → Prop
  | .sent taskId request =>
    (∀ step ∈ request.steps, GatedStep pre step ∨ AppendsDirectly D (nodeRuns pre)) ∧
      ∀ step, request.appended? = some step → lastNode (nodeRuns pre) = some .verifyApproval →
        FirstApproved pre taskId step
  | .closed _ executionId _ => ∀ x, executionId = some x →
    Ended (nodeRuns pre) x ∨ LeftOpen D (nodeRuns pre)
  | .ran .. | .persisted .. => True

/-- The invariant: the completed nodes, the tables and a checkpoint. -/
structure Inv (D : Deployment) (rs : List NodeRun) (w : World) (s : SessionState)
    (next : Option Node) : Prop where
  runs : nodeRuns w.log = rs
  owner : ∀ wf, s.workflow = some wf → s.activeTaskId = some wf.activeTaskId ∧
    s.taskRequests wf.activeTaskId ≠ none ∧ s.executionId = wf.executionId
  fresh : ∀ taskId, s.taskRequests taskId = none → Untouched w taskId
  revisions : ∀ (revisionId : Uuid) (r : Revision), w.revisions.get revisionId = some r →
    r.Lawful D ∧ Event.persisted revisionId r ∈ w.log
  plain : ∀ (key : EffectKey) (row : EffectRow), key.startsOperation = false →
    w.effects.get key = some row → row.request.steps = []
  /-- A Task's row has the execution of its binding. -/
  bindings : ∀ (taskId : Uuid) (b : Binding), w.bindings.get taskId = some b →
    ∃ t, w.tasks.get taskId = some t ∧ t.executionId = some b.executionId
  sound : Each (Sound D) w.log
  task : ∀ n, next = some n → n ≠ .beginTask → ∃ wf, s.workflow = some wf ∧ TaskInv D w wf n

/-! ## Later tables -/

/-- Revisions stay, and no node completes. -/
structure Extends (w w' : World) : Prop where
  revisions : ∀ (revisionId : Uuid) (r : Revision), w.revisions.get revisionId = some r →
    w'.revisions.get revisionId = some r
  runs : nodeRuns w'.log = nodeRuns w.log
  log : w.log.Sublist w'.log

section

variable {D : Deployment} {w w' : World} {wf wf' : WorkflowState} {n : Node} {p : PersistedPlan}
  {r : Revision} {review : RiskReview}

/-- A stored plan goes on matching its revision while the world grows. -/
theorem Matching.mono (hx : Extends w w') (h : Matching w wf) : Matching w' wf := by
  obtain ⟨p, r, hp, hr, hplan⟩ := h
  exact ⟨p, r, hp, hx.revisions _ _ hr, hplan⟩

/-- A review of a revision stays one. -/
theorem Reviewed.mono (hx : Extends w w') (h : Reviewed w wf p r review) :
    Reviewed w' wf p r review := by
  obtain ⟨e, he, hreviews⟩ := h.gated
  exact ⟨h.persisted, hx.revisions _ _ h.stored, h.codeRisk, hx.runs.symm ▸ h.last, h.level,
    e, he.trans hx.log, hreviews⟩

/-- An approval by review stays one. -/
theorem ApprovedByReview.mono (hx : Extends w w') (h : ApprovedByReview w.log wf p review) :
    ApprovedByReview w'.log wf p review :=
  ⟨h.1.mono hx.log, hx.runs.symm ▸ h.2⟩

/-- An approval stays one. -/
theorem Approved.mono (hx : Extends w w') (h : Approved w.log wf p review) :
    Approved w'.log wf p review :=
  h.imp (fun h => h.mono hx) fun h => ⟨h.1, h.2.mono hx.log⟩

/-- A Task in execution stays in execution. -/
theorem InExecution.mono (hx : Extends w w') (h : InExecution w wf) : InExecution w' wf :=
  ⟨hx.runs.symm ▸ h.cleared, h.single, h.submitted⟩

/-- The facts of a node outlive commits. -/
theorem Stage.mono (hx : Extends w w') (h : Stage D w wf n) : Stage D w' wf n := by
  cases n <;> simp only [Stage, hx.runs] at h ⊢ <;> try exact h
  case loadSelectedWorkflow =>
    obtain ⟨hfix, hclr, c, d, e, he, hsel⟩ := h
    exact ⟨hfix, hclr, c, d, e, hx.log.subset he, hsel⟩
  case reviewCompiledCodeRisk =>
    obtain ⟨hclr, hsingle, hmatch, hload⟩ := h
    refine ⟨hclr, hsingle, hmatch.mono hx, fun hfix happ => ?_⟩
    obtain ⟨p, c, d, chosen, loaded, hp, hsub, hsel⟩ := hload hfix happ
    exact ⟨p, c, d, chosen, loaded, hp, hsub.trans hx.log, hsel⟩
  case reviewPlan =>
    obtain ⟨hclr, hsingle, hmatch, p, r, review, hrev⟩ := h
    exact ⟨hclr, hsingle, hmatch.mono hx, p, r, review, hrev.mono hx⟩
  case verifyApproval =>
    obtain ⟨hclr, hsingle, hmatch, p, r, review, hrev, happ⟩ := h
    exact ⟨hclr, hsingle, hmatch.mono hx, p, r, review, hrev.mono hx, fun h => (happ h).mono hx⟩
  case submitExecution =>
    obtain ⟨hclr, hsingle, hexec, p, r, review, hrev, happ⟩ := h
    exact ⟨hclr, hsingle, hexec, p, r, review, hrev.mono hx, happ.mono hx⟩
  case appendOperation =>
    obtain ⟨hin, hfrom⟩ := h
    refine ⟨hin.mono hx, hfrom.imp (fun h => h) fun h => ⟨h.1, fun hmulti => ?_⟩⟩
    obtain ⟨hmatch, hkind, p, r, review, hrev, happ⟩ := h.2 hmulti
    exact ⟨hmatch.mono hx, hkind, p, r, review, hrev.mono hx, happ.mono hx⟩
  case reconcileExecutor | recordEventReceipt | adaptMultiPlan => exact ⟨h.1.mono hx, h.2⟩
  case registerExecution | waitExternalSignal | finalizeExecution | cancelExecution =>
    exact h.mono hx

/-- A request to append a Step stays justified. -/
theorem AppendRequest.mono (hx : Extends w w') {request : ExecutorRequest}
    (h : AppendRequest D w wf request) : AppendRequest D w' wf request := by
  obtain ⟨x, v, step, next, p, plan, row, r, sequence, hreq, hplan, hrow, hstep, hnext⟩ := h
  exact ⟨x, v, step, next, p, plan, row, r, sequence, hreq, hplan, hrow, hstep,
    hx.revisions _ _ hnext.stored, hnext.plan, hnext.task, hnext.number⟩

/-- The history of a journal row outlives commits that keep its request and its inputs. -/
theorem AppendRow.mono (hx : Extends w w') {row row' : EffectRow}
    (hreq : row'.request = row.request) (hsha : row'.inputSha256 = row.inputSha256)
    (h : AppendRow D w wf n row) : AppendRow D w' wf n row' := by
  obtain ⟨x, op, revisionId, plan, d, hin, hcase⟩ := h
  refine ⟨x, op, revisionId, plan, d, hsha.trans hin, hcase.imp ?_ ?_⟩
  · rintro ⟨r, hr, h⟩
    exact ⟨r, hx.revisions _ _ hr, h⟩
  · rintro ⟨hn, hp, h⟩
    exact ⟨hn, hp, hreq ▸ h.mono hx⟩

/-- The Steps of a stored revision do not change. -/
theorem approvedSteps_mono (hx : Extends w w') {revisionId : Uuid}
    (hr : w.revisions.get revisionId = some r) :
    w'.approvedSteps revisionId = w.approvedSteps revisionId := by
  simp [World.approvedSteps, hr, hx.revisions _ _ hr]

/-- A request to submit stays justified: its revision is stored and is not overwritten. -/
theorem SubmitRequest.mono (hx : Extends w w') {request : ExecutorRequest}
    (hstored : ∀ p, wf.persisted = some p → ∃ r, w.revisions.get p.planRevisionId = some r)
    (h : SubmitRequest w wf request) : SubmitRequest w' wf request := by
  refine ⟨fun p hp step hstep => ?_, h.appended⟩
  obtain ⟨r, hr⟩ := hstored p hp
  rw [approvedSteps_mono hx hr]
  exact h.steps p hp step hstep

/-- The plan a Task points to is stored, whatever node is next. -/
theorem TaskInv.stored (h : TaskInv D w wf n) (p : PersistedPlan) (hp : wf.persisted = some p) :
    ∃ r, w.revisions.get p.planRevisionId = some r := by
  obtain ⟨r, hr, -⟩ := h.current p hp
  exact ⟨r, hr⟩

/-- Tables that differ by a quiet commit and by entries of the log that are no completed nodes. -/
structure Settles (w w' : World) : Prop where
  revisions : w'.revisions = w.revisions
  runs : nodeRuns w'.log = nodeRuns w.log
  log : w.log.Sublist w'.log
  tasks : ∀ taskId, (w'.tasks.get taskId).map TaskRow.executionId =
    (w.tasks.get taskId).map TaskRow.executionId
  bindings : ∀ taskId, (w'.bindings.get taskId).map Binding.executionId =
    (w.bindings.get taskId).map Binding.executionId
  effects : ∀ (key : EffectKey) (row' : EffectRow), w'.effects.get key = some row' →
    (∃ row, w.effects.get key = some row ∧ row'.request = row.request ∧
      row'.inputSha256 = row.inputSha256) ∨
    (key.startsOperation = false ∧ row'.request.steps = [])

/-- Settling an effect extends the world. -/
theorem Settles.extends (h : Settles w w') : Extends w w' :=
  ⟨fun _ _ hr => h.revisions.symm ▸ hr, h.runs, h.log⟩

/-- A quiet commit settles no effect. -/
theorem Quiet.settles (h : Quiet w w') : Settles w w' :=
  ⟨h.revisions, by rw [h.log], by rw [h.log], h.tasks, h.bindings, h.effects⟩

/-- An entry of the log that is no run of a node settles no effect. -/
theorem settles_logged (w : World) {e : Event} (he : e.nodeRun? = none) : Settles w (w.logged e) :=
  ⟨rfl, nodeRuns_concat_of_none _ he, List.sublist_append_left _ _, fun _ => rfl, fun _ => rfl,
    fun _ row' h => .inl ⟨row', h, rfl, rfl⟩⟩

/-- A Task's execution, read in tables that settle others. -/
theorem Settles.task (h : Settles w w') {taskId : Uuid} {t' : TaskRow}
    (ht : w'.tasks.get taskId = some t') :
    ∃ t, w.tasks.get taskId = some t ∧ t'.executionId = t.executionId := by
  have hmap := h.tasks taskId
  rw [ht] at hmap
  obtain ⟨t, ht, hexec⟩ := Option.map_eq_some_iff.mp hmap.symm
  exact ⟨t, ht, hexec.symm⟩

/-- A request that hands over Steps was there before. -/
theorem Settles.effect (h : Settles w w') {key : EffectKey} {row' : EffectRow}
    (hkey : key.startsOperation = true) (hrow : w'.effects.get key = some row') :
    ∃ row, w.effects.get key = some row ∧ row'.request = row.request ∧
      row'.inputSha256 = row.inputSha256 := by
  rcases h.effects key row' hrow with h | ⟨hno, -⟩
  · exact h
  · exact absurd (hkey.symm.trans hno) (by simp)

/-- A Task's invariant is kept while effects are settled. -/
theorem TaskInv.settle (hs : Settles w w') (h : TaskInv D w wf n) : TaskInv D w' wf n where
  bound revisionId r hr := h.bound revisionId r (hs.revisions ▸ hr)
  current p hp := hs.revisions.symm ▸ h.current p hp
  submits hexec k row' hrow' := by
    obtain ⟨row, hrow, hreq, -⟩ := hs.effect rfl hrow'
    obtain ⟨hn, hsub⟩ := h.submits hexec k row hrow
    exact ⟨hn, hreq ▸ hsub.mono hs.extends h.stored⟩
  appends op row' hrow' := by
    obtain ⟨row, hrow, hreq, hsha⟩ := hs.effect rfl hrow'
    exact (h.appends op row hrow).mono hs.extends hreq hsha
  execution hn t' ht' := by
    obtain ⟨t, ht, hexec⟩ := hs.task ht'
    exact hexec.trans (h.execution hn t ht)
  stage := h.stage.mono hs.extends

/-- A Task nothing was done for stays untouched while effects are settled. -/
theorem Untouched.settle {taskId : Uuid} (hs : Settles w w') (h : Untouched w taskId) :
    Untouched w' taskId where
  revisions revisionId r hr := h.revisions revisionId r (hs.revisions ▸ hr)
  submits k := by
    cases hrow : w'.effects.get (.submit taskId k) with
    | none => rfl
    | some row' =>
      obtain ⟨row, hrow, -⟩ := hs.effect rfl hrow
      exact absurd (hrow.symm.trans (h.submits k)) (by simp)
  appends op := by
    cases hrow : w'.effects.get (.append taskId op) with
    | none => rfl
    | some row' =>
      obtain ⟨row, hrow, -⟩ := hs.effect rfl hrow
      exact absurd (hrow.symm.trans (h.appends op)) (by simp)
  task t' ht' := by
    obtain ⟨t, ht, hexec⟩ := hs.task ht'
    exact hexec.trans (h.task t ht)
  runs := hs.runs.symm ▸ h.runs

variable {rs : List NodeRun} {s s' : SessionState} {next : Option Node}

/-- The invariant holds of tables that settle others, if the log stays sound. -/
theorem Inv.settle (hs : Settles w w') (hsound : Each (Sound D) w'.log) (h : Inv D rs w s next) :
    Inv D rs w' s next where
  runs := hs.runs.trans h.runs
  owner := h.owner
  fresh taskId ht := (h.fresh taskId ht).settle hs
  revisions revisionId r hr := by
    obtain ⟨hlaw, hmem⟩ := h.revisions revisionId r (hs.revisions ▸ hr)
    exact ⟨hlaw, hs.log.subset hmem⟩
  plain key row' hkey hrow' := by
    rcases hs.effects key row' hrow' with ⟨row, hrow, hreq, -⟩ | ⟨-, hsteps⟩
    · rw [hreq]
      exact h.plain key row hkey hrow
    · exact hsteps
  bindings taskId b' hb' := by
    have hmap := hs.bindings taskId
    rw [hb'] at hmap
    obtain ⟨b, hb, hid⟩ := Option.map_eq_some_iff.mp hmap.symm
    obtain ⟨t, ht, hexec⟩ := h.bindings taskId b hb
    have htasks := hs.tasks taskId
    rw [ht] at htasks
    obtain ⟨t', ht', hexec'⟩ := Option.map_eq_some_iff.mp htasks
    exact ⟨t', ht', by rw [hexec', hexec, hid]⟩
  sound := hsound
  task n hn hb := by
    obtain ⟨wf, hwf, ht⟩ := h.task n hn hb
    exact ⟨wf, hwf, ht.settle hs⟩

/-- Quiet commits keep the invariant. -/
theorem Inv.quietClosed : QuietClosed fun w => Inv D rs w s next :=
  fun _ _ h hq => h.settle hq.settles (hq.log ▸ h.sound)

/-- An entry that is no completed node keeps the invariant, if it is sound. -/
theorem Inv.note (h : Inv D rs w s next) {e : Event} (he : e.nodeRun? = none)
    (hsound : Sound D w.log e) :
    Inv D rs (w.logged e) s next :=
  h.settle (settles_logged w he) (h.sound.concat hsound)

/-! ## Completed nodes -/

/-- What no node changes but `begin_task`: who the Task is. The session's own copy of the execution
follows the workflow. -/
structure SameTask (s s' : SessionState) (wf wf' : WorkflowState) : Prop where
  before : s.workflow = some wf
  after : s'.workflow = some wf'
  active : s'.activeTaskId = s.activeTaskId
  requests : s'.taskRequests = s.taskRequests
  execution : s'.executionId = wf'.executionId
  task : wf'.activeTaskId = wf.activeTaskId

/-- A Task that has nothing to do with a completed node stays untouched. -/
theorem Untouched.ran {taskId : Uuid} {svc : Services} (h : Untouched w taskId)
    (hne : ∀ wf, s.workflow = some wf → wf.activeTaskId ≠ taskId) :
    Untouched (w.logged (.ran n svc s s')) taskId where
  revisions := h.revisions
  submits := h.submits
  appends := h.appends
  task := h.task
  runs r hr := by
    unfold World.logged nodeRuns at hr
    rw [List.filterMap_append, List.mem_append] at hr
    rcases hr with hr | hr
    · exact h.runs r hr
    · cases hwf : s.workflow with
      | none => simp [Event.nodeRun?, hwf] at hr
      | some wf =>
        cases hwf' : s'.workflow with
        | none => simp [Event.nodeRun?, hwf, hwf'] at hr
        | some wf' =>
          obtain rfl : r = ⟨n, svc, wf, wf'⟩ := by simpa [Event.nodeRun?, hwf, hwf'] using hr
          exact hne wf hwf

/-- The rule of a completed node: the session stays in order, and what is to be shown is the
invariant of the Task before the node that follows. -/
theorem Inv.ran {svc : Services} (h : Inv D rs w s (some n)) (hst : SameTask s s' wf wf')
    (htask : ∀ m, next = some m → m ≠ .beginTask →
      TaskInv D (w.logged (.ran n svc s s')) wf' m) :
    Inv D (rs ++ (Event.ran n svc s s').nodeRun?.toList) (w.logged (.ran n svc s s')) s' next where
  runs := (nodeRuns_concat w.log _).trans (by rw [h.runs])
  owner wf₀ hwf₀ := by
    obtain rfl : wf' = wf₀ := Option.some.inj (hst.after.symm.trans hwf₀)
    obtain ⟨hactive, hreq, -⟩ := h.owner wf hst.before
    rw [hst.active, hst.requests, hst.task]
    exact ⟨hactive, hreq, hst.execution⟩
  fresh taskId ht := by
    rw [hst.requests] at ht
    refine (h.fresh taskId ht).ran fun wf₀ hwf₀ hid => ?_
    obtain ⟨-, hreq, -⟩ := h.owner wf₀ hwf₀
    exact hreq (hid ▸ ht)
  revisions revisionId r hr := by
    obtain ⟨hlaw, hmem⟩ := h.revisions revisionId r hr
    exact ⟨hlaw, List.mem_append_left _ hmem⟩
  plain := h.plain
  bindings := h.bindings
  sound := h.sound.concat trivial
  task m hm hb := ⟨wf', hst.after, htask m hm hb⟩

/-- A node that persists no revision: what follows has to know the Task's execution and its own
facts. -/
theorem TaskInv.moveOn {svc : Services} {m : Node} (h : TaskInv D w wf n)
    (hpend : ∀ payload, ¬Pending wf payload n) (htask : wf'.activeTaskId = wf.activeTaskId)
    (hp : wf'.persisted = wf.persisted)
    (hsub : wf'.executionId = none → wf.executionId = none ∧ n ≠ .submitExecution)
    (hexec : ∀ t, w.tasks.get wf.activeTaskId = some t → t.executionId = wf'.executionId)
    (hstage : Stage D (w.logged (.ran n svc s s')) wf' m) :
    TaskInv D (w.logged (.ran n svc s s')) wf' m where
  bound revisionId r hr ht := by
    rw [htask] at ht
    -- No revision is pending, so the old bound stays.
    rcases h.bound revisionId r hr ht with hle | ⟨-, hpending⟩
    · exact .inl (by unfold WorkflowState.revisionNumber at hle ⊢; rw [hp]; exact hle)
    · exact absurd hpending (hpend _)
  current p hp' := by
    rw [hp] at hp'
    rw [htask]
    exact h.current p hp'
  submits hnone k row hrow := by
    rw [htask] at hrow
    obtain ⟨hnone, hne⟩ := hsub hnone
    exact absurd (h.submits hnone k row hrow).1 hne
  appends op row hrow := by
    rw [htask] at hrow
    obtain ⟨x, op', revisionId, plan, d, hin, hcase⟩ := h.appends op row hrow
    refine ⟨x, op', revisionId, plan, d, hin, .inl ?_⟩
    rcases hcase with ⟨r, hr, hrt, hlt⟩ | ⟨hn, -, hreq⟩
    · refine ⟨r, hr, by rw [htask]; exact hrt, ?_⟩
      unfold WorkflowState.revisionNumber at hlt ⊢
      rw [hp]
      exact hlt
    · obtain ⟨x, v, step, next, p, plan, row, r, sequence, -, hplan, -⟩ := hreq
      have hpending : Pending wf (plan.withStep plan.first) n := by
        rw [hn]
        exact ⟨plan, hplan, rfl⟩
      exact absurd hpending (hpend _)
  execution _ t ht := by
    rw [htask] at ht
    exact hexec t ht
  stage := hstage

/-- A node that neither persists a revision nor submits: what follows has to know its own facts. -/
theorem TaskInv.carry {svc : Services} {m : Node} (h : TaskInv D w wf n)
    (hpend : ∀ payload, ¬Pending wf payload n) (hsub : n ≠ .submitExecution)
    (htask : wf'.activeTaskId = wf.activeTaskId) (hp : wf'.persisted = wf.persisted)
    (hx : wf'.executionId = wf.executionId)
    (hstage : Stage D (w.logged (.ran n svc s s')) wf' m) :
    TaskInv D (w.logged (.ran n svc s s')) wf' m :=
  h.moveOn hpend htask hp (fun hnone => ⟨hx.symm.trans hnone, hsub⟩)
    (fun t ht => (h.execution hsub t ht).trans hx.symm) hstage

/-- A node that moves the state on to the next revision. -/
theorem TaskInv.persisted {svc : Services} {m : Node} (h : TaskInv D w wf n)
    (hsub : n ≠ .submitExecution) (hnext : NextRevision w wf p r)
    (htask : wf'.activeTaskId = wf.activeTaskId) (hp : wf'.persisted = some p)
    (hx : wf'.executionId = wf.executionId)
    (hstage : Stage D (w.logged (.ran n svc s s')) wf' m) :
    TaskInv D (w.logged (.ran n svc s s')) wf' m := by
  have hnumber : wf'.revisionNumber = wf.revisionNumber + 1 := by
    have hpn : p.planRevisionNumber = r.revisionNumber := congrArg _ hnext.plan
    unfold WorkflowState.revisionNumber
    rw [hp]
    exact hpn.trans hnext.number
  refine ⟨fun revisionId r' hr' ht => ?_, fun p' hp' => ?_, fun hexec k row hrow => ?_,
    fun op row hrow => ?_, fun _ t ht => ?_, hstage⟩
  · rw [htask] at ht
    left
    rcases h.bound revisionId r' hr' ht with hle | ⟨heq, -⟩ <;> omega
  · obtain rfl : p = p' := Option.some.inj (hp.symm.trans hp')
    rw [htask]
    exact ⟨r, hnext.stored, hnext.plan, hnext.task⟩
  · rw [htask] at hrow
    rw [hx] at hexec
    exact absurd (h.submits hexec k row hrow).1 hsub
  · -- Every append request is now an earlier one: also that of an append that has just completed.
    rw [htask] at hrow
    obtain ⟨x, op', revisionId, plan, d, hin, hcase⟩ := h.appends op row hrow
    refine ⟨x, op', revisionId, plan, d, hin, .inl ?_⟩
    rw [htask]
    rcases hcase with ⟨r', hr', hrt, hlt⟩ | ⟨-, hid, -⟩
    · exact ⟨r', hr', hrt, by omega⟩
    · obtain ⟨p₀, hp₀, rfl⟩ := Option.map_eq_some_iff.mp hid
      obtain ⟨r₀, hr₀, hplan, hrt⟩ := h.current p₀ hp₀
      have hn₀ : p₀.planRevisionNumber = r₀.revisionNumber := congrArg _ hplan
      have hwf : wf.revisionNumber = p₀.planRevisionNumber := by
        unfold WorkflowState.revisionNumber
        rw [hp₀]
        rfl
      exact ⟨r₀, hr₀, hrt, by omega⟩
  · rw [htask] at ht
    rw [hx]
    exact h.execution hsub t ht

/-- Inserting the revision that the next node works on keeps the invariant. -/
theorem Inv.withRevision {row : PlanRow} {revisions : Table Uuid Revision} {revisionId : Uuid}
    (h : Inv D rs w s (some n)) (hwf : s.workflow = some wf)
    (hins : w.revisions.insert revisionId r = some revisions) (htask : r.taskId = wf.activeTaskId)
    (hnumber : r.revisionNumber = wf.revisionNumber + 1) (hpend : Pending wf r.publicPayload n)
    (hlaw : r.Lawful D) : Inv D rs (w.withRevision row revisions revisionId r) s (some n) := by
  obtain ⟨hfree, hget⟩ := Table.get_of_insert hins
  -- A revision is the new one or an old one.
  have hcases : ∀ (i : Uuid) (r' : Revision), revisions.get i = some r' →
      (i = revisionId ∧ r' = r) ∨ w.revisions.get i = some r' := by
    intro i r' hr'
    rw [hget i] at hr'
    split at hr'
    · rename_i hi
      exact .inl ⟨hi, (Option.some.inj hr').symm⟩
    · exact .inr hr'
  have hruns : nodeRuns (w.withRevision row revisions revisionId r).log = nodeRuns w.log :=
    nodeRuns_concat_of_none _ rfl
  have hx : Extends w (w.withRevision row revisions revisionId r) := by
    refine ⟨fun i r' hr' => ?_, hruns, List.sublist_append_left _ _⟩
    have hne : i ≠ revisionId := by
      rintro rfl
      exact absurd (hfree.symm.trans hr') (by simp)
    exact ((hget i).trans (if_neg hne)).trans hr'
  obtain ⟨hactive, hreq, hexec⟩ := h.owner wf hwf
  refine ⟨hruns.trans h.runs, h.owner, fun taskId ht => ?_, fun i r' hr' => ?_, h.plain, h.bindings,
    h.sound.concat trivial, fun n' hn' hb => ?_⟩
  · have hu := h.fresh taskId ht
    refine ⟨fun i r' hr' => ?_, hu.submits, hu.appends, hu.task, hruns.symm ▸ hu.runs⟩
    rcases hcases i r' hr' with ⟨-, rfl⟩ | hr'
    · rintro rfl
      exact hreq (htask ▸ ht)
    · exact hu.revisions i r' hr'
  · rcases hcases i r' hr' with ⟨rfl, rfl⟩ | hr'
    · exact ⟨hlaw, List.mem_append_right _ (List.mem_singleton.mpr rfl)⟩
    · exact ⟨(h.revisions i r' hr').1, List.mem_append_left _ (h.revisions i r' hr').2⟩
  · obtain rfl : n = n' := Option.some.inj hn'
    obtain ⟨wf₀, hwf₀, ht⟩ := h.task n rfl hb
    obtain rfl : wf = wf₀ := Option.some.inj (hwf.symm.trans hwf₀)
    refine ⟨wf, hwf, fun i r' hr' hrt => ?_, fun p hp => ?_, fun hex k row' hrow' => ?_,
      fun op row' hrow' => ?_, ht.execution, ht.stage.mono hx⟩
    · rcases hcases i r' hr' with ⟨-, rfl⟩ | hr'
      · exact .inr ⟨hnumber, hpend⟩
      · exact ht.bound i r' hr' hrt
    · obtain ⟨r', hr', hp', hrt⟩ := ht.current p hp
      exact ⟨r', hx.revisions _ _ hr', hp', hrt⟩
    · obtain ⟨hsub, hreq'⟩ := ht.submits hex k row' hrow'
      exact ⟨hsub, hreq'.mono hx ht.stored⟩
    · exact (ht.appends op row' hrow').mono hx rfl rfl

end

end ExAgent.Graph
