import ExAgent.Graph.Reachable

/-!
# What the session graph guarantees

Three results about every run, each read off the invariant. No submission starts without an approval
of exactly the revision it submits, and an append that follows an approval sends the first Step of
the revision that was approved. Every Step that is sent was reviewed before, in runs where no MULTI
decision appends a Step directly. And a Task is closed only after its execution has ended, in runs
where no node decides to give up an execution that is still open.

The two conditions are not idle: the last sections have runs of the graph in which a decision
APPEND_STEP sends a Step that was never reviewed, and a decision FAIL closes a Task, and frees its
session, while its execution waits for an Operation.
-/

namespace ExAgent.Graph

open Lib

/-! ## A sample deployment

Programs are free code, their digest is their length, and the digest of an append's inputs is its
revision. The sample run goes through a MULTI execution: a plan is approved and submitted, and its
first Operation succeeds. -/

namespace Sample

/-- The deployment. -/
def deployment : Deployment where
  getTool _ := none
  toolSource _ _ := .error .other
  customSource source := .ok source
  sha256 := String.length
  payloadHash plan := plan.steps.length
  inputDigest
    | .append _ _ revisionId _ _ => revisionId
    | _ => 0
  requestDigest _ := 0
  fingerprint turn := turn.activeTaskId
  correctionLimit := 3

/-- Two revisions of the sample's deployment are told apart. -/
theorem deployment_tellsRevision : deployment.TellsRevision :=
  fun _ _ _ _ _ _ _ _ _ _ h => h

/-- A Step of free code. -/
def step (code : String) (h : code ≠ "") : PlanStepDraft where
  sequence := 0
  title := "step"
  purpose := "sample"
  planningKind := .customCode
  skill := none
  tool := none
  parameters := ⟨[], Dict.sorted_nil⟩
  selectionRationale := "sample"
  expectedOutputs := []
  validationCriteria := []
  timeoutSeconds := 300
  customCode := some code
  lineage_of_tool := nofun
  lineage_of_code _ := ⟨nofun, by simpa using h, rfl, rfl⟩

/-- A plan with one Step. -/
def plan : PlanDraft where
  objective := "sample"
  strategySummary := "sample"
  executionMode := .multi
  runtimeProfile := "basic"
  first := step "load()" (by decide)
  rest := []
  assumptions := []
  expectedArtifacts := []
  sequences := rfl

/-- The Step a MULTI decision comes up with. -/
def nextStep : PlanStepDraft := step "delete_everything()" (by decide)

/-- The sample's decision has its Step. -/
theorem step_of_nextStep : MultiAction.appendStep = .appendStep → some nextStep ≠ none := by simp

/-- A completed node without a receipt. -/
def ran (svc : Services) : GraphAction := .run ⟨1, none⟩ svc

/-- The approval of a revision. -/
def approve (revisionId number : ℕ) : GraphAction :=
  ran { resume := some (.planReview ⟨.approve, revisionId, number, 1, none, false⟩) }

/-- From the turn of Task 7 to `submit_execution`. -/
def toSubmit : List GraphAction :=
  [.accept 7, .start ⟨"user", "project", 1, 7, 8, "analyse", "basic"⟩, ran {}, ran {},
    ran { intentDecision := .ok ⟨.codeExecution, false, none, some .multi,
    question_of_no_clarification⟩ },
    ran { requestReview := .ok ⟨.low, "fine", .allow⟩ }, ran { plan := .ok plan },
    ran { newPlanId := 100, newRevisionId := 101, newBundleId := 102 },
    ran { codeReview := .ok ⟨.low, "fine", .allow⟩ }, approve 101 1, ran {}]

/-- On to `adapt_multi_plan`: execution 30 waits after Operation 40. -/
def toAdapt : List GraphAction :=
  toSubmit ++ [ran { command := .ok ⟨30, some 40, 1⟩ }, ran {},
    ran { resume := some (.worker ⟨7, 91, ⟨51, 30, "execution.operation_completed", 1, "", "", "",
      by decide, Nat.one_pos⟩⟩) },
    ran { result := .ok ⟨30, .waitingForOperation, 2, [⟨40, .succeeded, none, []⟩]⟩ }, ran {}]

/-- The next Step goes through approval and is appended. -/
def reapproval : List GraphAction :=
  toAdapt ++ [ran { multiDecision := .ok ⟨.requireReapproval, "", some nextStep, by simp⟩ },
    ran { newRevisionId := 201, newBundleId := 202 },
    ran { codeReview := .ok ⟨.low, "fine", .allow⟩ },
    approve 201 2, ran {}, ran { newRevisionId := 301, command := .ok ⟨30, some 41, 3⟩ }]

/-- The next Step is appended directly. -/
def directAppend : List GraphAction :=
  toAdapt ++ [ran { multiDecision := .ok ⟨.appendStep, "", some nextStep, step_of_nextStep⟩ },
    ran { newRevisionId := 301, command := .ok ⟨30, some 41, 3⟩ }]

/-- The request that leaves for the Executor then. -/
def appendRequest : ExecutorRequest :=
  .append 30 2 ⟨1, ⟨7, 19, "py"⟩, 19, 300, none, none, ⟨[], Dict.sorted_nil⟩⟩ 2 ⟨100, 301, 2, 1, 0⟩
    (plan.withStep nextStep)

/-- The Task gives up. -/
def failed : List GraphAction :=
  toAdapt ++ [ran { multiDecision := .ok ⟨.fail, "", none, step_of_fail⟩ }, ran {}]

/-- The execution succeeds, and the Task is closed with a report. -/
def succeeded : List GraphAction :=
  toSubmit ++ [ran { command := .ok ⟨30, some 40, 1⟩ }, ran {},
    ran { resume := some (.worker ⟨7, 91, ⟨51, 30, "execution.completed", 1, "", "", "",
      Worker.completed_nonempty, Nat.one_pos⟩⟩) },
    ran { result := .ok ⟨30, .succeeded, 2, [⟨40, .succeeded, none, []⟩]⟩ }, ran {},
    ran { result := .ok ⟨30, .succeeded, 2, [⟨40, .succeeded, none, []⟩]⟩ },
    ran { report := .ok "done", artifact := .ok 60 }, ran {}]

/-- The state that a list of actions leads to. -/
def after (actions : List GraphAction) : GraphState :=
  ((sessionGraph deployment).run {} actions).getD {}

/-- A list of actions that runs ends in its state. -/
theorem after_eq {actions : List GraphAction} {g : GraphState}
    (h : (sessionGraph deployment).run {} actions = some g) : after actions = g := by
  unfold after
  rw [h]
  rfl

/-- A list of actions that runs to its end reaches a state. -/
theorem after_reachable {actions : List GraphAction}
    (h : ((sessionGraph deployment).run {} actions).isSome = true) :
    (sessionGraph deployment).Reachable (after actions) := by
  obtain ⟨g, hg⟩ := Option.isSome_iff_exists.mp h
  rw [after_eq hg]
  exact Machine.Reachable.run (.start rfl) hg

/-- The same for steps that meet a condition. -/
theorem after_reachableWhen {C : GraphState → GraphAction → Prop} [∀ g a, Decidable (C g a)]
    {actions : List GraphAction}
    (h : ((sessionGraph deployment).runIf C {} actions).isSome = true) :
    (sessionGraph deployment).ReachableWhen C (after actions) := by
  obtain ⟨g, hg⟩ := Option.isSome_iff_exists.mp h
  rw [after_eq (Machine.run_of_runIf hg)]
  exact Machine.ReachableWhen.runIf (.start rfl) hg

end Sample

section

variable {D : Deployment} {g : GraphState}

/-! ## Approval -/

/-- When `submit_execution` runs, the revision in the state was approved in a plan review, or
compiled from a workflow the user had selected, with the risk acknowledged where its last code
review is HIGH; that review is not CRITICAL, and the risk of the request was confirmed where it had
to be. A Step that `append_operation` sends after `verify_approval` is the first one of the revision
approved last. -/
theorem submission_approved (htells : D.TellsRevision) (hg : (sessionGraph D).Reachable g) :
    (g.next = some .submitExecution → ∃ wf p review, g.values.workflow = some wf ∧
      wf.persisted = some p ∧
      lastCodeReview (nodeRuns g.world.log) p.planRevisionId = some review ∧
      review.level ≠ .critical ∧
      (PlanApproval g.world.log wf.activeTaskId p review ∨
        WorkflowApproval g.world.log wf.activeTaskId p review) ∧
      Cleared (nodeRuns g.world.log) wf.activeTaskId) ∧
    Each (fun pre e => ∀ taskId request step, e = .sent taskId request →
      request.appended? = some step → lastNode (nodeRuns pre) = some .verifyApproval →
      FirstApproved pre taskId step) g.world.log := by
  obtain ⟨rs, hinv⟩ := inv_reachable htells hg
  constructor
  · intro hnext
    obtain ⟨wf, hwf, ht⟩ := hinv.task .submitExecution hnext (by decide)
    obtain ⟨hclr, -, -, p, r, review, hrev, happ⟩ := ht.stage
    refine ⟨wf, p, review, hwf, hrev.persisted, hrev.last, hrev.level, ?_, hclr⟩
    exact happ.imp (fun h => h.1) fun h => h.2
  · intro pre e post hlog taskId request step he hstep hlast
    obtain rfl := he
    have hsound : Sound D pre (.sent taskId request) := hinv.sound pre _ post hlog
    exact hsound.2 step hstep hlast

/-- The sample run up to its submission, and the run in which the second Step is approved as
well. -/
theorem submission_approved_sample :
    (∃ wf p review, (Sample.after Sample.toSubmit).values.workflow = some wf ∧
      wf.persisted = some p ∧
      lastCodeReview (nodeRuns (Sample.after Sample.toSubmit).world.log) p.planRevisionId =
        some review ∧
      review.level ≠ .critical ∧
      (PlanApproval (Sample.after Sample.toSubmit).world.log wf.activeTaskId p review ∨
        WorkflowApproval (Sample.after Sample.toSubmit).world.log wf.activeTaskId p review) ∧
      Cleared (nodeRuns (Sample.after Sample.toSubmit).world.log) wf.activeTaskId) ∧
    Each (fun pre e => ∀ taskId request step, e = .sent taskId request →
      request.appended? = some step → lastNode (nodeRuns pre) = some .verifyApproval →
      FirstApproved pre taskId step) (Sample.after Sample.reapproval).world.log :=
  ⟨(submission_approved Sample.deployment_tellsRevision (Sample.after_reachable rfl)).1 rfl,
    (submission_approved Sample.deployment_tellsRevision (Sample.after_reachable rfl)).2⟩

/-! ## The risk gate -/

/-- Every Step that was sent belongs to a revision that was reviewed before. -/
def RiskGated (log : List Event) : Prop :=
  Each (fun pre e => ∀ taskId request step, e = .sent taskId request → step ∈ request.steps →
    GatedStep pre step) log

/-- A completed node before an entry is one of the whole log. -/
theorem mem_nodeRuns_of_prefix {log pre post : List Event} {e : Event} {r : NodeRun}
    (hlog : log = pre ++ e :: post) (hr : r ∈ nodeRuns pre) : r ∈ nodeRuns log := by
  rw [hlog]
  unfold nodeRuns at hr ⊢
  rw [List.filterMap_append]
  exact List.mem_append_left _ hr

/-- In a run in which no MULTI decision appends a Step, every Step that is sent was reviewed. -/
theorem riskGated_of_reapproved (htells : D.TellsRevision)
    (hg : (sessionGraph D).ReachableWhen (Avoids (AppendsStep D)) g) : RiskGated g.world.log := by
  obtain ⟨rs, hinv, havoid⟩ := inv_avoids htells hg
  intro pre e post hlog taskId request step he hstep
  obtain rfl := he
  have hsound : Sound D pre (.sent taskId request) := hinv.sound pre _ post hlog
  rcases hsound.1 step hstep with hgated | ⟨r, hr, happends⟩
  · exact hgated
  · exact absurd happends (havoid r (hinv.runs ▸ mem_nodeRuns_of_prefix hlog hr))

/-- The run in which the second Step is approved. -/
theorem riskGated_of_reapproved_sample : RiskGated (Sample.after Sample.reapproval).world.log :=
  riskGated_of_reapproved Sample.deployment_tellsRevision (Sample.after_reachableWhen rfl)

/-- What the risk gate depends on of an entry: the programs of a revision, or that it was
reviewed. -/
def Event.gate? : Event → Option ((Uuid × List Sha256) ⊕ Option Uuid)
  | .persisted revisionId r => some (.inl (revisionId, r.steps.map PlanStep.compiledSourceSha256))
  | .ran .reviewCompiledCodeRisk _ before _ =>
    some (.inr (before.workflow.bind fun wf => wf.persisted.map PersistedPlan.planRevisionId))
  | _ => none

/-- A gated Step, by its program. -/
theorem GatedStep.gate {log : List Event} {step : ExecutorStep} (h : GatedStep log step) :
    ∃ revisionId programs, step.sha256 ∈ programs ∧
      [Sum.inl (revisionId, programs), .inr (some revisionId)].Sublist
      (log.filterMap Event.gate?) := by
  obtain ⟨revisionId, r, review, e, row, hsub, ⟨svc, before, after, wf, rfl, hwf, hid, -⟩,
    -, hrow, hstep⟩ := h
  refine ⟨revisionId, r.steps.map PlanStep.compiledSourceSha256, ?_, ?_⟩
  · have hsha : step.sha256 = row.compiledSourceSha256 := congrArg ExecutorStep.sha256 hstep
    rw [hsha]
    exact List.mem_map_of_mem hrow
  · have h := hsub.filterMap Event.gate?
    simpa [Event.gate?, hwf, hid] using h

/-- A MULTI decision APPEND_STEP sends a program that was never reviewed. -/
theorem not_riskGated_directAppend : (sessionGraph Sample.deployment).Reachable
      (Sample.after Sample.directAppend) ∧
    ¬RiskGated (Sample.after Sample.directAppend).world.log := by
  refine ⟨Sample.after_reachable rfl, fun h => ?_⟩
  have hlog : (Sample.after Sample.directAppend).world.log =
      (Sample.after Sample.directAppend).world.log.take 18 ++ .sent 7 Sample.appendRequest ::
        (Sample.after Sample.directAppend).world.log.drop 19 := rfl
  obtain ⟨revisionId, programs, hmem, hsub⟩ :=
    (h _ _ _ hlog 7 Sample.appendRequest _ rfl (List.mem_singleton.mpr rfl)).gate
  -- The only review is of the first revision, which has another program.
  have hgates : ((Sample.after Sample.directAppend).world.log.take 18).filterMap Event.gate? =
      [.inl (101, [6]), .inr (some 101), .inl (301, [19])] := rfl
  rw [hgates] at hsub
  rcases List.mem_cons.mp (hsub.subset List.mem_cons_self) with h | h
  · obtain ⟨rfl, rfl⟩ : revisionId = 101 ∧ programs = [6] := by simpa using h
    exact absurd hmem (by decide)
  · obtain ⟨rfl, rfl⟩ : revisionId = 301 ∧ programs = [19] := by simpa using h
    exact absurd hsub (by decide)

/-! ## Terminal commits -/

/-- Every Task that was closed with an execution had it reconciled as ended. -/
def LockOutlives (log : List Event) : Prop :=
  Each (fun pre e => ∀ taskId x status, e = .closed taskId (some x) status →
    Ended (nodeRuns pre) x) log

/-- In a run in which no node leaves an execution open, a Task is closed after its execution. -/
theorem lockOutlives_of_closed (htells : D.TellsRevision)
    (hg : (sessionGraph D).ReachableWhen (Avoids (LeavesOpen D)) g) : LockOutlives g.world.log := by
  obtain ⟨rs, hinv, havoid⟩ := inv_avoids htells hg
  intro pre e post hlog taskId x status he
  obtain rfl := he
  have hsound : Sound D pre (.closed taskId (some x) status) := hinv.sound pre _ post hlog
  rcases hsound x rfl with hended | ⟨r, hr, hopen⟩
  · exact hended
  · exact absurd hopen (havoid r (hinv.runs ▸ mem_nodeRuns_of_prefix hlog hr))

/-- The run in which the execution succeeds. -/
theorem lockOutlives_of_closed_sample : LockOutlives (Sample.after Sample.succeeded).world.log :=
  lockOutlives_of_closed Sample.deployment_tellsRevision (Sample.after_reachableWhen rfl)

/-- A MULTI decision FAIL closes a Task whose execution waits for an Operation. -/
theorem not_lockOutlives_failed : (sessionGraph Sample.deployment).Reachable
      (Sample.after Sample.failed) ∧ ¬LockOutlives (Sample.after Sample.failed).world.log := by
  refine ⟨Sample.after_reachable rfl, fun h => ?_⟩
  have hlog : (Sample.after Sample.failed).world.log =
      (Sample.after Sample.failed).world.log.take 17 ++ .closed 7 (some 30) .failed ::
        (Sample.after Sample.failed).world.log.drop 18 := rfl
  obtain ⟨status, hlast, hterminal⟩ := h _ _ _ hlog 7 30 .failed rfl
  have hwaiting : lastReconciled (nodeRuns ((Sample.after Sample.failed).world.log.take 17)) 30 =
      some .waitingForOperation := rfl
  obtain rfl := Option.some.inj (hwaiting.symm.trans hlast)
  exact absurd hterminal (by decide)

end

end ExAgent.Graph
