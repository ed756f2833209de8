import ExAgent.Graph.Kept
import ExAgent.Graph.Reports

/-!
# What nodes commit

The transactions of the nodes, said once: every state that a node commits comes from the one before
it by one of the commits of `Commit`, all of them for the Task of the workflow, and a row of the
journal under a key of the node (`superstep_commits`). A fact about the tables that these commits
keep holds in every state of a run, in the middle of nodes too; the last section has the first of
them, that a Task has the execution of its binding.
-/

namespace ExAgent.Graph

open Lib Prog

/-- The keys under which a node journals for a Task. -/
def Node.Journals (taskId : Uuid) : Node → EffectKey → Prop
  | .submitExecution, key => ∃ number, key = .submit taskId number
  | .appendOperation, key => ∃ operationId, key = .append taskId operationId
  | .finalizeExecution, key => key = .finalize taskId
  | .cancelExecution, key => key = .cancel taskId
  | .generateReport, key => key = .report taskId
  | _, _ => False

/-- A commit of a node for its Task. -/
inductive Commit (taskId : Uuid) (n : Node) (w : World) : World → Prop
  /-- The Task gets a status. -/
  | status (status : TaskStatus) (hopen : status.isTerminal = false) :
    Commit taskId n w { w with tasks := w.tasks.modifyAt taskId fun t => { t with status } }
  /-- The session is locked for the Task. -/
  | locked : Commit taskId n w { w with lock := some ⟨taskId, none⟩ }
  /-- A revision of the plan is stored. -/
  | revised (row : PlanRow) (revisions : Table Uuid Revision) (revisionId : Uuid) (r : Revision) :
    Commit taskId n w (w.withRevision row revisions revisionId r)
  /-- A request is journaled, unless there is one. -/
  | prepared {key : EffectKey} (row : EffectRow) (hkey : n.Journals taskId key) :
    Commit taskId n w (w.withEffect key row)
  /-- The Executor's answer is journaled. -/
  | answered {key : EffectKey} {row : EffectRow} (response : EffectResponse)
      (hkey : n.Journals taskId key) (hrow : w.effects.get key = some row)
      (hopen : row.response = none) :
    Commit taskId n w
      { w with effects := w.effects.modifyAt key fun _ => { row with response := some response } }
  /-- A request leaves for the Executor. -/
  | sent (request : ExecutorRequest) : Commit taskId n w (w.logged (.sent taskId request))
  /-- The Task is bound to its execution. -/
  | bound (b : Binding) (hnone : w.bindings.get taskId = none) :
    Commit taskId n w (w.withBinding taskId b)
  /-- The binding moves on. -/
  | rebound (f : Binding → Binding)
      (hf : ∀ b, w.bindings.get taskId = some b → (f b).executionId = b.executionId) :
    Commit taskId n w { w with bindings := w.bindings.modifyAt taskId f }
  /-- The Task is closed. -/
  | closed {t : TaskRow} (status : TaskStatus) (message : String)
      (metadata : Option TerminalMetadata) (hn : n.closes = true)
      (ht : w.tasks.get taskId = some t) :
    Commit taskId n w (w.close taskId t status message metadata)

/-- What a node has made of the tables so far. -/
def Commits (taskId : Uuid) (n : Node) : World → World → Prop :=
  Relation.ReflTransGen (Commit taskId n)

/-- A program whose transactions are commits of a node. -/
def MadeOf (taskId : Uuid) (n : Node) {α : Type} (m : Run α) : Prop :=
  ∀ w₀, Triple (Commits taskId n w₀) m (fun _ => Commits taskId n w₀) (Commits taskId n w₀)

/-- A fact that the commits of a node keep, its programs keep. -/
theorem MadeOf.keeps {taskId : Uuid} {n : Node} {α : Type} {m : Run α} {I : World → Prop}
    (h : MadeOf taskId n m) (hI : ∀ w w', I w → Commit taskId n w w' → I w') :
    Triple I m (fun _ => I) I := by
  refine .along (fun w => Relation.ReflTransGen.refl) (fun w w' hw hc => ?_) h
  induction hc with
  | refl => exact hw
  | tail _ hstep ih => exact hI _ _ ih hstep

namespace MadeOf

variable {taskId : Uuid} {n : Node} {α β : Type}

/-- A value commits nothing. -/
theorem pure (a : α) : MadeOf taskId n (Pure.pure a : Run α) := fun _ => .pure fun _ h => h

/-- An exception commits nothing. -/
theorem raise (e : Raised) : MadeOf taskId n (.raise e : Run α) := fun _ => .raise fun _ h => h

/-- A value that has to be there commits nothing. -/
theorem demand (x : Option α) (e : Raised) : MadeOf taskId n (.demand x e : Run α) := fun _ =>
  (Triple.demand fun _ h => h).weaken (fun _ h => h) (fun _ _ h => h.2) fun _ h => h

/-- A computation aside commits nothing. -/
theorem ofExcept (x : Except Raised α) : MadeOf taskId n (.ofExcept x : Run α) := fun _ =>
  (Triple.ofExcept fun _ h => h).weaken (fun _ h => h) (fun _ _ h => h.2) fun _ h => h

/-- A check commits nothing. -/
theorem refuseIf (c : Prop) [Decidable c] (e : Raised) :
    MadeOf taskId n (.refuseIf c e : Run Unit) := fun _ =>
  (Triple.refuseIf fun _ h => h).weaken (fun _ h => h) (fun _ _ h => h.2) fun _ h => h

/-- A read commits nothing. -/
theorem query (f : World → Except Raised α) : MadeOf taskId n (.query f : Run α) := fun _ =>
  (Triple.query fun _ h => h).weaken (fun _ h => h) (fun _ _ h => h.2) fun _ h => h

/-- A transaction that makes a commit, or none. -/
theorem transact {f : World → Except Raised (α × World)}
    (hf : ∀ w a w', f w = .ok (a, w') → w' = w ∨ Commit taskId n w w') :
    MadeOf taskId n (.transact f : Run α) := by
  intro w₀
  refine .transact (fun w hw a w' h => ?_) fun _ h => h
  have hw' : Commits taskId n w₀ w' := by
    rcases hf w a w' h with rfl | hc
    · exact hw
    · exact hw.tail hc
  exact ⟨hw', hw'⟩

/-- Two programs one after the other make the commits of both. -/
theorem bind {m : Run α} {f : α → Run β} (hm : MadeOf taskId n m)
    (hf : ∀ a, MadeOf taskId n (f a)) : MadeOf taskId n (m >>= f) := fun w₀ =>
  (hm w₀).bind fun a => hf a w₀

end MadeOf

section

variable {D : Deployment} {svc : Services} {wf : WorkflowState} {taskId : Uuid} {n : Node}

/-! ## Services -/

/-- The status of a Task, when it is no end, is a commit of every node. -/
theorem updateStatus_madeOf {status : TaskStatus} (hopen : status.isTerminal = false) :
    MadeOf taskId n (updateStatus taskId status) := by
  refine .transact fun w a w' h => ?_
  split at h
  · exact absurd h (by simp)
  · obtain ⟨-, rfl⟩ := Prod.mk.inj (Except.ok.inj h)
    exact .inr (.status status hopen)

/-- The session lock is a commit of every node. -/
theorem lockSession_madeOf : MadeOf taskId n (lockSession taskId) := by
  refine .transact fun w a w' h => ?_
  split at h
  · exact absurd h (by simp)
  · split at h
    · split at h
      · exact absurd h (by simp)
      · exact .inl (Prod.mk.inj (Except.ok.inj h)).2.symm
    · obtain ⟨-, rfl⟩ := Prod.mk.inj (Except.ok.inj h)
      exact .inr .locked

/-- `terminal` is a commit of the nodes that close a Task. -/
theorem terminal_madeOf {status : TaskStatus} {message : String}
    {metadata : Option TerminalMetadata} (hn : n.closes = true) :
    MadeOf taskId n (terminal taskId status message metadata) := by
  refine .transact fun w a w' h => ?_
  split_ifs at h
  split at h
  · exact absurd h (by simp)
  · rename_i t ht
    split_ifs at h
    · exact .inl (Prod.mk.inj (Except.ok.inj h)).2.symm
    · obtain ⟨-, rfl⟩ := Prod.mk.inj (Except.ok.inj h)
      exact .inr (.closed status message metadata hn ht)

/-- A revision is a commit of every node. -/
theorem persistPlan_madeOf {plan : PlanDraft} {compiled : List (CompiledStep × InputPath)}
    {feedback : Option String} {expected : ℕ} :
    MadeOf taskId n (persistPlan D svc taskId plan compiled feedback expected) := by
  refine .transact fun w a w' h => ?_
  split at h
  · exact absurd h (by simp)
  · split at h
    · exact absurd h (by simp)
    · exact .inl (Prod.mk.inj (Except.ok.inj h)).2.symm
    · split at h
      · exact absurd h (by simp)
      · dsimp only at h
        split at h
        · exact absurd h (by simp)
        · obtain ⟨-, rfl⟩ := Prod.mk.inj (Except.ok.inj h)
          exact .inr (.revised _ _ _ _)

/-- `persist` compiles without a commit and stores one revision. -/
theorem persist_madeOf {plan : PlanDraft} :
    MadeOf wf.activeTaskId n (persist D svc wf plan) :=
  ((MadeOf.demand _ _).bind fun _ => .refuseIf _ _).bind fun _ =>
    (MadeOf.ofExcept _).bind fun _ => (MadeOf.ofExcept _).bind fun _ => persistPlan_madeOf

/-- A request that leaves is a commit of every node. -/
theorem send_madeOf (request : ExecutorRequest) : MadeOf taskId n (send svc taskId request) := by
  have hpost : MadeOf taskId n (post taskId request) := by
    refine .transact fun w a w' h => ?_
    obtain ⟨-, rfl⟩ := Prod.mk.inj (Except.ok.inj h)
    exact .inr (.sent request)
  refine (MadeOf.ofExcept _).bind fun _ => hpost.bind fun _ => ?_
  split
  · exact (MadeOf.ofExcept _).bind fun _ => .pure _
  · exact (MadeOf.ofExcept _).bind fun _ => (MadeOf.refuseIf _ _).bind fun _ =>
      (MadeOf.refuseIf _ _).bind fun _ => .pure _

/-- An effect is made of commits when its key is one of the node's and its request is made of
them. -/
theorem journalRun_madeOf {key : EffectKey} {kind : EffectKind} {inputs : EffectInputs}
    {prepare : Run ExecutorRequest} (hkey : n.Journals taskId key)
    (hprepare : MadeOf taskId n prepare) :
    MadeOf taskId n (journalRun D taskId key kind inputs prepare (send svc taskId)) := by
  -- The row of the effect is inserted before the request is sent.
  have hinsert : ∀ request, MadeOf taskId n
      (prepareEffect D key taskId kind (D.inputDigest inputs) request) := by
    intro request
    refine .transact fun w a w' h => ?_
    dsimp only at h
    split at h
    · exact absurd h (by simp)
    · split at h
      · exact absurd h (by simp)
      · split_ifs at h
        obtain ⟨-, rfl⟩ := Prod.mk.inj (Except.ok.inj h)
        exact .inr (.prepared _ hkey)
  -- The response is written into a row that has none.
  have hcomplete : ∀ response, MadeOf taskId n (completeEffect D key response) := by
    intro response
    refine .transact fun w a w' h => ?_
    split at h
    · exact absurd h (by simp)
    · rename_i row hrow
      split at h
      · split at h
        · exact absurd h (by simp)
        · split at h
          · exact absurd h (by simp)
          · exact .inl (Prod.mk.inj (Except.ok.inj h)).2.symm
      · rename_i hopen
        dsimp only at h
        split at h
        · exact absurd h (by simp)
        · obtain ⟨-, rfl⟩ := Prod.mk.inj (Except.ok.inj h)
          exact .inr (.answered response hkey hrow hopen)
  refine (MadeOf.query _).bind fun found => MadeOf.bind ?_ fun record =>
    (MadeOf.refuseIf _ _).bind fun _ => ?_
  · cases found with
    | some record => exact .pure _
    | none => exact hprepare.bind hinsert
  · unfold completedRecord
    split
    · exact .pure _
    · exact (send_madeOf _).bind hcomplete

/-- The projection of a receipt is a commit of every node. -/
theorem projectBinding_madeOf {x : Uuid} {version : ℕ} {operationId : Option Uuid}
    {next : Option ℕ} {create : Bool} :
    MadeOf taskId n (projectBinding taskId x version operationId next create) := by
  intro w₀
  refine projectBinding_cases (fun _ h => h) (fun w b b' hw hb _ hid => ?_)
    fun w b task _ hw hnone _ _ _ => ?_
  · have hc : Commits taskId n w₀ { w with
      bindings := w.bindings.modifyAt taskId fun _ => b' } := by
      refine hw.tail (.rebound (fun _ => b') fun b₀ hb₀ => ?_)
      obtain rfl := Option.some.inj (hb.symm.trans hb₀)
      exact hid
    exact ⟨hc, hc⟩
  · have hc : Commits taskId n w₀ (w.withBinding taskId b) := hw.tail (.bound b hnone)
    exact ⟨hc, hc⟩

/-- The update of a binding is a commit of every node. -/
theorem updateBinding_madeOf {version sequence : ℕ} :
    MadeOf taskId n (updateBinding taskId version sequence) := by
  refine .transact fun w a w' h => ?_
  split at h
  · exact absurd h (by simp)
  · obtain ⟨-, rfl⟩ := Prod.mk.inj (Except.ok.inj h)
    exact .inr (.rebound _ fun _ _ => rfl)

/-! ## Nodes -/

/-- Reading a signal commits nothing. -/
theorem resumeSignal_madeOf : MadeOf taskId n (resumeSignal svc) := by
  refine (MadeOf.demand _ _).bind fun raw => ?_
  cases raw <;> first | exact .raise _ | exact .pure _

/-- The check of the mode commits nothing. -/
theorem validatePlanExecutionMode_madeOf {plan : PlanDraft} :
    MadeOf taskId n (validatePlanExecutionMode wf plan) :=
  (MadeOf.demand _ _).bind fun _ => .refuseIf _ _

/-- The check of a selection commits nothing. -/
theorem checkSelection_madeOf {signal : WorkflowSelectionDecision}
    {candidates : List WorkflowCandidate} {versionId : Uuid} :
    MadeOf taskId n (checkSelection signal candidates versionId) :=
  (MadeOf.demand _ _).bind fun _ => (MadeOf.refuseIf _ _).bind fun _ => .refuseIf _ _

/-- A receipt is read without a commit. -/
theorem submissionReceipt_madeOf {record : EffectRow} :
    MadeOf taskId n (submissionReceipt record) := by
  unfold submissionReceipt
  split
  · exact .pure _
  · exact .raise _

/-- `submit` makes commits of its node. -/
theorem submit_madeOf : MadeOf wf.activeTaskId .submitExecution (submit D svc wf) := by
  refine (MadeOf.demand _ _).bind fun _ => validatePlanExecutionMode_madeOf.bind fun _ => ?_
  refine (MadeOf.demand _ _).bind fun revision => (MadeOf.demand _ _).bind fun _ => ?_
  have hkey : Node.submitExecution.Journals wf.activeTaskId
      (.submit wf.activeTaskId revision.planRevisionNumber) := ⟨_, rfl⟩
  refine (journalRun_madeOf hkey ?_).bind fun _ => ?_
  · exact (MadeOf.query _).bind fun _ => (MadeOf.refuseIf _ _).bind fun _ =>
      (MadeOf.ofExcept _).bind fun _ => .pure _
  · exact submissionReceipt_madeOf.bind fun _ => (MadeOf.demand _ _).bind fun _ =>
      projectBinding_madeOf.bind fun _ => .pure _

/-- `append` makes commits of its node. -/
theorem append_madeOf {decision : MultiDecision} :
    MadeOf wf.activeTaskId .appendOperation (append D svc wf decision) := by
  refine (MadeOf.demand _ _).bind fun _ => (MadeOf.refuseIf _ _).bind fun _ => ?_
  refine (MadeOf.demand _ _).bind fun _ => (MadeOf.demand _ _).bind fun operationId => ?_
  refine (MadeOf.demand _ _).bind fun _ => (MadeOf.demand _ _).bind fun _ => ?_
  have hkey : Node.appendOperation.Journals wf.activeTaskId (.append wf.activeTaskId operationId) :=
    ⟨_, rfl⟩
  refine (journalRun_madeOf hkey ?_).bind fun _ => ?_
  · refine persist_madeOf.bind fun _ => (MadeOf.query _).bind fun _ => ?_
    exact (MadeOf.query _).bind fun _ => (MadeOf.refuseIf _ _).bind fun _ =>
      (MadeOf.demand _ _).bind fun _ => (MadeOf.ofExcept _).bind fun _ => .pure _
  · exact submissionReceipt_madeOf.bind fun _ => (MadeOf.demand _ _).bind fun _ =>
      projectBinding_madeOf.bind fun _ => (MadeOf.demand _ _).bind fun _ => .pure _

/-- `finalize` and `cancel` make commits of a node that has their key. -/
theorem lifecycle_madeOf {kind : EffectKind} {key : EffectKey} {reason : Option String}
    (hkey : n.Journals wf.activeTaskId key) :
    MadeOf wf.activeTaskId n (lifecycle D svc wf kind key reason) := by
  refine (MadeOf.demand _ _).bind fun _ => (journalRun_madeOf hkey ?_).bind fun _ => ?_
  · exact (MadeOf.query _).bind fun _ => (MadeOf.refuseIf _ _).bind fun _ => .pure _
  · split
    · exact projectBinding_madeOf
    · exact .raise _

/-- Reconciling makes commits of every node. -/
theorem reconcile_madeOf {signal : ExecutorBoundarySignal} :
    MadeOf wf.activeTaskId n (reconcile svc wf signal) := by
  refine (MadeOf.ofExcept _).bind fun _ => (MadeOf.ofExcept _).bind fun _ => ?_
  have hend : ∀ (result : ExecutionResult) (x : ExecutorReconciliation), MadeOf wf.activeTaskId n
      (do
        updateBinding wf.activeTaskId result.version signal.eventSequence
        pure x) := fun _ _ => updateBinding_madeOf.bind fun _ => .pure _
  dsimp only
  split
  · refine (MadeOf.refuseIf _ _).bind fun _ => (MadeOf.query _).bind fun _ => ?_
    refine (MadeOf.demand _ _).bind fun _ => (MadeOf.demand _ _).bind fun _ => ?_
    exact (MadeOf.refuseIf _ _).bind fun _ => (MadeOf.ofExcept _).bind fun _ => hend _ _
  · exact hend _ _

/-- The decision of the agent makes commits of every node. -/
theorem adapt_madeOf {reconciliation : ExecutorReconciliation} :
    MadeOf taskId n (adapt D svc wf reconciliation) := by
  unfold adapt
  split
  · exact .pure _
  · refine (MadeOf.demand _ _).bind fun _ => (MadeOf.demand _ _).bind fun _ => ?_
    refine (MadeOf.ofExcept _).bind fun decision => ?_
    split
    · exact .pure _
    · exact (MadeOf.ofExcept _).bind fun _ => .pure _

/-- `report` makes commits of its node. -/
theorem report_madeOf {evidence : ReportEvidence} :
    MadeOf wf.activeTaskId .generateReport (report D svc wf evidence) := by
  refine (MadeOf.demand _ _).bind fun _ => (MadeOf.refuseIf _ _).bind fun _ => ?_
  have hkey : Node.generateReport.Journals wf.activeTaskId (.report wf.activeTaskId) := rfl
  refine (journalRun_madeOf hkey ((MadeOf.ofExcept _).bind fun _ => .pure _)).bind fun _ => ?_
  refine (MadeOf.demand _ _).bind fun _ => ?_
  split
  · exact .pure _
  · exact .raise _

/-- The end of a Task is made of the commits of a node that closes one. -/
theorem commitWith_madeOf {status : TaskStatus} {message : String} (hn : n.closes = true) :
    MadeOf wf.activeTaskId n (commitWith wf status message) :=
  (terminal_madeOf hn).bind fun _ => .pure _

/-- Every business node commits for the Task of its workflow. -/
theorem businessNode_madeOf : MadeOf wf.activeTaskId n (businessNode D svc n wf) := by
  cases n with
  | hydrateTurn => exact (updateStatus_madeOf rfl).bind fun _ => .pure _
  | classifyIntent =>
    refine (MadeOf.ofExcept _).bind fun decision => ?_
    dsimp only
    split <;> exact .pure _
  | clarifyRequest =>
    exact (MadeOf.demand _ _).bind fun _ => resumeSignal_madeOf.bind fun _ =>
      (MadeOf.demand _ _).bind fun _ => .pure _
  | answerGeneral =>
    exact (updateStatus_madeOf rfl).bind fun _ => (MadeOf.ofExcept _).bind fun _ => .pure _
  | answerDataQuestion =>
    exact (updateStatus_madeOf rfl).bind fun _ => (MadeOf.ofExcept _).bind fun _ => .pure _
  | commitAnswer =>
    exact (MadeOf.demand _ _).bind fun _ => (terminal_madeOf rfl).bind fun _ => .pure _
  | chooseExecutionMode =>
    exact resumeSignal_madeOf.bind fun _ => (MadeOf.demand _ _).bind fun _ => .pure _
  | reviewRequestRisk => exact (MadeOf.ofExcept _).bind fun _ => .pure _
  | confirmRequestRisk =>
    refine (MadeOf.demand _ _).bind fun _ => resumeSignal_madeOf.bind fun _ => ?_
    refine (MadeOf.demand _ _).bind fun _ => ?_
    split <;> exact .pure _
  | searchWorkflows => exact (MadeOf.ofExcept _).bind fun _ => .pure _
  | chooseWorkflow =>
    refine (MadeOf.demand _ _).bind fun _ => (MadeOf.demand _ _).bind fun _ => ?_
    refine resumeSignal_madeOf.bind fun _ => (MadeOf.demand _ _).bind fun _ => ?_
    refine (MadeOf.refuseIf _ _).bind fun _ => ?_
    split
    · -- The selection is checked by a read.
      exact checkSelection_madeOf.bind fun _ => .pure _
    · exact .pure _
  | loadSelectedWorkflow =>
    refine MadeOf.bind ?_ fun _ => .pure _
    refine (MadeOf.demand _ _).bind fun _ => (MadeOf.demand _ _).bind fun _ => ?_
    refine (MadeOf.demand _ _).bind fun _ => (MadeOf.ofExcept _).bind fun _ => ?_
    -- The plan of the snapshot is persisted, as the planner's is.
    exact (MadeOf.refuseIf _ _).bind fun _ => (MadeOf.ofExcept _).bind fun _ =>
      persist_madeOf.bind fun _ => .pure _
  | buildPlan =>
    refine (updateStatus_madeOf rfl).bind fun _ => (MadeOf.demand _ _).bind fun _ => ?_
    refine (MadeOf.demand _ _).bind fun _ => (MadeOf.demand _ _).bind fun _ => ?_
    exact (MadeOf.refuseIf _ _).bind fun _ => (MadeOf.ofExcept _).bind fun _ => .pure _
  | compileAndPersistPlan =>
    exact (MadeOf.demand _ _).bind fun _ => persist_madeOf.bind fun _ => .pure _
  | reviewCompiledCodeRisk =>
    exact ((MadeOf.demand _ _).bind fun _ => .ofExcept _).bind fun _ => .pure _
  | reviewPlan =>
    refine (MadeOf.demand _ _).bind fun _ => (MadeOf.demand _ _).bind fun _ => ?_
    refine (MadeOf.demand _ _).bind fun _ => resumeSignal_madeOf.bind fun _ => ?_
    refine (MadeOf.demand _ _).bind fun _ => (MadeOf.refuseIf _ _).bind fun _ => ?_
    exact (MadeOf.refuseIf _ _).bind fun _ => (MadeOf.refuseIf _ _).bind fun _ =>
      (MadeOf.refuseIf _ _).bind fun _ => .pure _
  | verifyApproval =>
    refine MadeOf.bind ?_ fun _ => .pure _
    refine (MadeOf.refuseIf _ _).bind fun _ => (MadeOf.demand _ _).bind fun _ => ?_
    -- The approved plan takes the Session lock.
    exact validatePlanExecutionMode_madeOf.bind fun _ => lockSession_madeOf.bind fun _ =>
      updateStatus_madeOf rfl
  | submitExecution => exact submit_madeOf.bind fun _ => .pure _
  | reconcileExecutor =>
    exact (MadeOf.demand _ _).bind fun _ => (MadeOf.demand _ _).bind fun _ =>
      reconcile_madeOf.bind fun _ => .pure _
  | adaptMultiPlan =>
    refine (MadeOf.demand _ _).bind fun _ => adapt_madeOf.bind fun decision => ?_
    dsimp only
    split
    · exact .pure _
    · exact (MadeOf.demand _ _).bind fun _ => .pure _
  | appendOperation =>
    refine (MadeOf.demand _ _).bind fun _ => append_madeOf.bind fun receipt => ?_
    dsimp only
    split <;> exact .pure _
  | finalizeExecution =>
    have hkey : Node.finalizeExecution.Journals wf.activeTaskId (.finalize wf.activeTaskId) := rfl
    exact (lifecycle_madeOf hkey).bind fun _ => .pure _
  | cancelExecution =>
    have hkey : Node.cancelExecution.Journals wf.activeTaskId (.cancel wf.activeTaskId) := rfl
    exact (MadeOf.demand _ _).bind fun _ => (MadeOf.demand _ _).bind fun _ =>
      (lifecycle_madeOf hkey).bind fun _ => .pure _
  | buildReportEvidence =>
    refine MadeOf.bind ?_ fun _ => .pure _
    exact (MadeOf.demand _ _).bind fun _ => (MadeOf.ofExcept _).bind fun _ =>
      (MadeOf.ofExcept _).bind fun _ => (MadeOf.demand _ _).bind fun _ => .pure _
  | generateReport =>
    exact (MadeOf.demand _ _).bind fun _ => report_madeOf.bind fun _ => .pure _
  | commitSuccess =>
    exact (MadeOf.demand _ _).bind fun _ => (terminal_madeOf rfl).bind fun _ => .pure _
  | commitRejected => exact commitWith_madeOf rfl
  | commitBlocked => exact (MadeOf.demand _ _).bind fun _ => commitWith_madeOf rfl
  | commitFailed => exact (MadeOf.demand _ _).bind fun _ => commitWith_madeOf rfl
  | commitCancelled => exact commitWith_madeOf rfl
  -- These nodes are no business nodes.
  | beginTask | registerExecution | waitExternalSignal | recordEventReceipt => exact .pure _

/-! ## Every node -/

variable {config : Config} {s : SessionState} {I : World → Prop}

/-- A fact that the commits of a node keep holds wherever the node stops. -/
theorem superstep_keeps (hI : ∀ wf w w', n.isBusiness = true → s.workflow = some wf → I w →
      Commit wf.activeTaskId n w w' → I w') :
    Triple I (superstep D config svc n s) (fun _ => I) I := by
  have hbody : Triple I (nodeBody D config svc n s) (fun _ => I) I := by
    cases hb : n.isBusiness with
    | false => exact sessionNode_silent hb
    | true =>
      rw [nodeBody_business hb]
      refine (Triple.demand fun _ h => h).bind fun wf => .assume fun hwf => ?_
      exact (businessNode_madeOf.keeps fun w w' => hI wf w w' hb hwf).bind fun _ =>
        .pure fun _ h => h
  have hrun : Triple I (runNode D config svc n s) (fun _ => I) I :=
    hbody.bind fun updated => receipt_spec.weaken (fun _ h => h) (fun _ _ h => h.2) fun _ h => h
  refine hrun.bind fun s' => ?_
  exact (Triple.ofExcept fun _ h => h).bind fun next => .assume fun _ => .pure fun _ h => h

/-! ## The Tasks -/

/-- The other Tasks are as they were, and the Task of a commit keeps its row. -/
theorem Commit.tasks {w w' : World} (h : Commit taskId n w w') (id : Uuid) :
    (id ≠ taskId → w'.tasks.get id = w.tasks.get id) ∧
      (w.tasks.get id ≠ none → w'.tasks.get id ≠ none) := by
  have hmodify : ∀ f : TaskRow → TaskRow,
      (id ≠ taskId → (w.tasks.modifyAt taskId f).get id = w.tasks.get id) ∧
        (w.tasks.get id ≠ none → (w.tasks.modifyAt taskId f).get id ≠ none) := by
    intro f
    rw [Table.get_modifyAt]
    refine ⟨fun hid => if_neg hid, fun hrow => ?_⟩
    split_ifs
    · simpa using hrow
    · exact hrow
  cases h with
  | status | bound | closed => exact hmodify _
  | locked | revised | prepared | answered | sent | rebound => exact ⟨fun _ => rfl, fun h => h⟩

/-- A node leaves every Task alone but the one of its workflow, and removes none. -/
structure Spares (s : SessionState) (w w' : World) : Prop where
  others : ∀ id, (∀ wf, s.workflow = some wf → id ≠ wf.activeTaskId) →
    w'.tasks.get id = w.tasks.get id
  kept : ∀ id, w.tasks.get id ≠ none → w'.tasks.get id ≠ none

/-- A superstep spares the other Tasks wherever it stops. -/
theorem superstep_spares {w₀ : World} :
    Triple (Spares s w₀) (superstep D config svc n s) (fun _ => Spares s w₀) (Spares s w₀) := by
  refine superstep_keeps fun wf w w' _ hwf hw hc => ?_
  refine ⟨fun id hid => ?_, fun id hrow => (hc.tasks id).2 (hw.kept id hrow)⟩
  rw [(hc.tasks id).1 (hid wf hwf), hw.others id hid]

/-- `begin_task` commits nothing. -/
theorem superstep_begin_silent : Triple I (superstep D config svc .beginTask s) (fun _ => I) I :=
  superstep_keeps fun _ _ _ hb => absurd hb (by decide)

/-! ## The end of a Task -/

/-- The Task of a workflow stays that of the next one, and a node that closes it leaves a phase that
is terminal. -/
structure Carries (n : Node) (wf wf' : WorkflowState) : Prop where
  task : wf'.activeTaskId = wf.activeTaskId
  ended : n.closes = true → wf'.phase.isTerminal = true

/-- A business node carries its Task on. -/
theorem businessNode_carries (hb : n.isBusiness = true) :
    Triple (fun _ => True) (businessNode D svc n wf) (fun wf' _ => Carries n wf wf')
      fun _ => True := by
  have hcommit : ∀ status message, n.closes = true → status.isTerminal = true →
      Triple (fun _ => True) (commitWith wf status message) (fun wf' _ => Carries n wf wf')
        fun _ => True := fun _ _ _ hterminal =>
    (Triple.trivial _).bind fun _ => .pure fun _ _ => ⟨rfl, fun _ => hterminal⟩
  by_cases hcalm : n.isCalm = true
  · refine ⟨fun _ _ _ _ => trivial, fun w _ wf' h => ?_, fun _ _ _ _ => trivial⟩
    obtain ⟨⟨hupdate, -⟩, -⟩ := (calmNode hcalm hb svc wf w).returns w (Calm.refl _ w) _ h
    refine ⟨hupdate.task, fun hcloses => ?_⟩
    cases n <;> first | exact absurd hcalm (by decide) | exact absurd hcloses (by decide)
  · cases n with
    | generateReport =>
      refine (Triple.demand fun _ h => h).bind fun _ => .assume fun _ => ?_
      exact (Triple.trivial _).bind fun _ => .pure fun _ _ => ⟨rfl, nofun⟩
    | commitAnswer =>
      refine (Triple.demand fun _ h => h).bind fun _ => .assume fun _ => ?_
      exact (Triple.trivial _).bind fun _ => .pure fun _ _ => ⟨rfl, fun _ => rfl⟩
    | commitSuccess =>
      refine (Triple.demand fun _ h => h).bind fun _ => .assume fun _ => ?_
      exact (Triple.trivial _).bind fun _ => .pure fun _ _ => ⟨rfl, fun _ => rfl⟩
    | commitRejected => exact hcommit _ _ rfl rfl
    | commitBlocked =>
      exact (Triple.demand fun _ h => h).bind fun _ => .assume fun _ => hcommit _ _ rfl rfl
    | commitFailed =>
      exact (Triple.demand fun _ h => h).bind fun _ => .assume fun _ => hcommit _ _ rfl rfl
    | commitCancelled => exact hcommit _ _ rfl rfl
    | beginTask => exact absurd hb (by decide)
    | _ => exact absurd rfl hcalm

/-- The workflow after a node other than `begin_task`, if there is one, is that of the same Task. -/
def CarriesOn (n : Node) (s s' : SessionState) : Prop :=
  (s.workflow = none ∧ s'.workflow = none ∧ n.closes = false) ∨
    ∃ wf wf', s.workflow = some wf ∧ s'.workflow = some wf' ∧ Carries n wf wf'

/-- Every node but `begin_task` carries the workflow on. -/
theorem nodeBody_carriesOn (hn : n ≠ .beginTask) :
    Triple (fun _ => True) (nodeBody D config svc n s) (fun s' _ => CarriesOn n s s')
      fun _ => True := by
  cases hb : n.isBusiness with
  | true =>
    rw [nodeBody_business hb]
    refine (Triple.demand fun _ h => h).bind fun wf => .assume fun hwf => ?_
    exact (businessNode_carries hb).bind fun wf' => .pure fun _ hc => .inr ⟨wf, wf', hwf, rfl, hc⟩
  | false =>
    -- A node that leaves the workflow alone does not close.
    have hsame : ∀ s' : SessionState, s'.workflow = s.workflow → n.closes = false →
        CarriesOn n s s' := by
      intro s' hs' hopen
      have hclosed : n.closes ≠ true := by simp [hopen]
      cases hwf : s.workflow with
      | none => exact .inl ⟨hwf, hs'.trans hwf, hopen⟩
      | some wf => exact .inr ⟨wf, wf, hwf, hs'.trans hwf, rfl, fun h => absurd h hclosed⟩
    cases n with
    | beginTask => exact absurd rfl hn
    | registerExecution =>
      refine (Triple.demand fun _ h => h).bind fun _ => .assume fun _ => ?_
      exact (Triple.ofExcept fun _ h => h).bind fun _ => .assume fun _ =>
        .pure fun _ _ => hsame _ rfl rfl
    | recordEventReceipt =>
      exact (Triple.demand fun _ h => h).bind fun _ => .assume fun _ =>
        .pure fun _ _ => hsame _ rfl rfl
    | waitExternalSignal =>
      refine (Triple.demand fun _ h => h).bind fun raw => .assume fun _ => ?_
      refine (Triple.demand fun _ h => h).bind fun wf => .assume fun hwf => ?_
      -- A signal is only put into the state.
      have hsignal : ∀ x s', s'.workflow = some { wf with externalSignal := some x } →
          CarriesOn .waitExternalSignal s s' :=
        fun x s' hs' => .inr ⟨wf, _, hwf, hs', rfl, nofun⟩
      cases raw with
      | cancelRequested signal =>
        exact (Triple.refuseIf fun _ h => h).bind fun _ => .assume fun _ =>
          .pure fun _ _ => hsignal _ _ rfl
      | worker action =>
        refine (Triple.refuseIf fun _ h => h).bind fun _ => .assume fun _ => ?_
        refine (Triple.refuseIf fun _ h => h).bind fun _ => .assume fun _ => ?_
        refine (Triple.refuseIf fun _ h => h).bind fun _ => .assume fun _ => ?_
        exact (Triple.demand fun _ h => h).bind fun _ => .assume fun _ =>
          .pure fun _ _ => hsignal _ _ rfl
      | _ => exact .raise fun _ h => h
    | _ => exact absurd hb (by decide)

/-- A superstep that ends carries the workflow on. -/
theorem superstep_carriesOn {w : World} {s' : SessionState} {next : Option Node}
    (hn : n ≠ .beginTask) (h : (superstep D config svc n s w).result = .ok (s', next)) :
    CarriesOn n s s' := by
  have hrun : Triple (fun _ => True) (runNode D config svc n s) (fun s' _ => CarriesOn n s s')
      fun _ => True := by
    refine (nodeBody_carriesOn hn).bind fun updated => ?_
    refine (receipt_spec (I := fun _ => CarriesOn n s updated)).weaken (fun _ h => h)
      (fun s' _ hs => ?_) fun _ _ => trivial
    obtain ⟨hcore, hc⟩ := hs
    unfold CarriesOn at hc ⊢
    rwa [hcore.workflow]
  have hspec : Triple (fun _ => True) (superstep D config svc n s)
      (fun r _ => CarriesOn n s r.1) fun _ => True :=
    hrun.bind fun s' => (Triple.ofExcept fun _ _ => trivial).bind fun next => .assume fun _ =>
      .pure fun _ h => h
  exact hspec.returns w trivial _ h

/-- Nothing follows the nodes that close a Task, and something follows every other. -/
theorem closes_of_end (h : successor n s = .ok none) : n.closes = true := by
  unfold successor at h
  cases hroute : routeOf n with
  | none =>
    rw [hroute] at h
    have hedge : edgeOf n = none := Except.ok.inj h
    cases n <;>
      first | rfl | exact absurd hedge (by decide) | exact absurd hroute (by simp [routeOf])
  | some route =>
    rw [hroute] at h
    cases hwf : s.workflow with
    | none => simp [hwf] at h
    | some wf =>
      rw [hwf] at h
      cases hr : route wf <;> simp [hr, Except.map] at h

end

end ExAgent.Graph
