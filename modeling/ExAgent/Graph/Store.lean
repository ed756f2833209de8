import Mathlib.Data.List.Sort
import ExAgent.Lib.Durable
import ExAgent.Lib.Table
import ExAgent.Graph.State

/-!
# The agent's tables, and what the graph's services commit to them

One session's part of the agent's database (`ex_agent/persistence/models.py`,
`agent/effects/models.py`): Tasks, the session lock, plans with their revisions, the journal of
Executor requests and the Executor binding of a Task. Each function here is one transaction of a
repository or of `EffectProjections` and returns the value it computes with the tables it commits;
an exception rolls it back.

Other modules have some of these transactions statement by statement, so that others can commit in
between: `Plans.Repository` has `persist`, and `Stores.Tasks` has `EffectProjections` and the
methods of `TaskRepository`. What is written here is what they write when they run alone, by
`Plans.Consistent.persistPlan_eq` for `persist` and by `Stores.EffectProjections.projectBinding_eq`
for the row of a binding; for the other transactions the two are two readings of one source.

The tables stand in a `World` together with a log of what happened: nodes that completed, revisions
that were inserted, requests that left for the Executor, Tasks that were closed. The log is a
history variable. Nothing reads it; the theorems are about it.
-/

namespace ExAgent.Graph

open Lib

/-- A content-addressed input file below the Executor's request root. -/
structure InputPath where
  taskId : Uuid
  checksum : Sha256
  suffix : String
deriving DecidableEq

/-- A row of `agent_plan_steps`. -/
structure PlanStep where
  sequence : ℕ
  title : String
  purpose : String
  selectionRationale : String
  skillRef : Option SkillReference
  toolRef : Option ToolReference
  parameters : Dict
  compiledSourceSha256 : Sha256
  compiledSourcePath : InputPath
  timeoutSeconds : ℕ
deriving DecidableEq

/-- A row of `agent_plans`; its key is the Task, which has one plan at most. -/
structure PlanRow where
  id : Uuid
  currentRevision : ℕ

/-- A row of `agent_plan_revisions` with its Steps; its key is the revision. The plan is given by
its Task. -/
structure Revision where
  taskId : Uuid
  planId : Uuid
  revisionNumber : ℕ
  publicPayload : PlanDraft
  publicPayloadHash : Sha256
  compiledBundleId : Uuid
  registrySnapshotHash : Sha256
  feedback : Option String
  steps : List PlanStep

/-- `metadata_json` of a terminal message. -/
structure TerminalMetadata where
  executionId : Option Uuid
  reportArtifactId : Option Uuid
deriving DecidableEq

/-- A row of `agent_tasks`, with the last assistant message and its metadata (`none` is `{}`). -/
structure TaskRow where
  status : TaskStatus
  terminalMessage : Option String
  executionId : Option Uuid
  assistant : Option (String × Option TerminalMetadata)

/-- The row of `agent_session_locks`. -/
structure SessionLock where
  activeTaskId : Uuid
  executionId : Option Uuid

/-- A row of `agent_executor_bindings`; its key is the Task. -/
structure Binding where
  executionId : Uuid
  operationId : Uuid
  executionVersion : ℕ
  nextStepSequence : ℕ
  lastEventSequence : ℕ

/-- `executor_step_payload`. -/
structure ExecutorStep where
  sequence : ℕ
  path : InputPath
  sha256 : Sha256
  stepTimeoutSeconds : ℕ
  skillName : Option String
  toolName : Option String
  inputParameters : Dict
deriving DecidableEq

/-- `executor_step`. -/
def executorStep (step : PlanStep) : ExecutorStep where
  sequence := step.sequence
  path := step.compiledSourcePath
  sha256 := step.compiledSourceSha256
  stepTimeoutSeconds := step.timeoutSeconds
  skillName := step.skillRef.map SkillReference.name
  toolName := step.toolRef.map ToolReference.name
  inputParameters := step.parameters

/-- The effects of a Task. -/
inductive EffectKind
  | submit
  | append
  | finalize
  | cancel
  | report
deriving DecidableEq

/-- The keys `task:{task}:submit:{revision number}`, `task:{task}:append:{operation}`,
`task:{task}:finalize`, `task:{task}:cancel` and `task:{task}:report`. -/
inductive EffectKey
  | submit (taskId : Uuid) (revisionNumber : ℕ)
  | append (taskId operationId : Uuid)
  | finalize (taskId : Uuid)
  | cancel (taskId : Uuid)
  | report (taskId : Uuid)
deriving DecidableEq

/-- The `inputs` a journaled effect is identified by. -/
inductive EffectInputs
  | submit (planRevisionId : Uuid) (planRevisionNumber : ℕ) (planPublicPayloadHash : Sha256)
      (runtimeProfile : String) (executionMode : ExecutionMode) (userId projectId : String)
      (sessionId : Uuid) (selectedWorkflowVersionId : Option (Option Uuid)) (plan : PlanDraft)
  | append (executionId previousOperationId planRevisionId : Uuid) (plan : PlanDraft)
      (decision : MultiDecision)
  | lifecycle (executionId : Uuid) (userId : String) (reason : Option String)
  | report (executionId : Uuid) (evidence : ReportEvidence)
deriving DecidableEq

/-- The requests of `DurableExecution` and `DurableReporting`: the body with what the journal keeps
beside it. -/
inductive ExecutorRequest
  | submit (mode : ExecutionMode) (runtimeProfile : String) (userId projectId : String)
      (sessionId taskId : Uuid) (workflowId : Option (Option Uuid)) (steps : List ExecutorStep)
      (nextStepSequence : ℕ)
  | append (executionId : Uuid) (expectedVersion : ℕ) (step : ExecutorStep) (nextStepSequence : ℕ)
      (persistedPlan : PersistedPlan) (plan : PlanDraft)
  | finalize (executionId : Uuid) (expectedVersion : ℕ)
  | cancel (executionId : Uuid) (actorId : String) (reason : Option String)
  | report (executionId : Uuid) (source : InputPath) (markdown : String)
deriving DecidableEq

/-- The Steps a request hands to the Executor. -/
def ExecutorRequest.steps : ExecutorRequest → List ExecutorStep
  | .submit _ _ _ _ _ _ _ steps _ => steps
  | .append _ _ step _ _ _ => [step]
  | .finalize .. | .cancel .. | .report .. => []

/-- `request.get("execution_id")`. -/
def ExecutorRequest.executionId? : ExecutorRequest → Option Uuid
  | .append executionId .. | .finalize executionId .. | .cancel executionId .. => some executionId
  | .submit .. | .report .. => none

/-- `request["next_step_sequence"]`. -/
def ExecutorRequest.nextStepSequence? : ExecutorRequest → Option ℕ
  | .submit _ _ _ _ _ _ _ _ next | .append _ _ _ next _ _ => some next
  | .finalize .. | .cancel .. | .report .. => none

/-- `request["plan"]` and `request["persisted_plan"]`. -/
def ExecutorRequest.persistedPlan? : ExecutorRequest → Option (PlanDraft × PersistedPlan)
  | .append _ _ _ _ persistedPlan plan => some (plan, persistedPlan)
  | .submit .. | .finalize .. | .cancel .. | .report .. => none

/-- `request["markdown"]`. -/
def ExecutorRequest.markdown? : ExecutorRequest → Option String
  | .report _ _ markdown => some markdown
  | .submit .. | .append .. | .finalize .. | .cancel .. => none

/-- The requests that start an Operation. -/
def ExecutorRequest.startsOperation : ExecutorRequest → Bool
  | .submit .. | .append .. => true
  | .finalize .. | .cancel .. | .report .. => false

/-- The response `ExecutorEffectSender.send` normalises. -/
inductive EffectResponse
  | command (executionId : Uuid) (executionVersion : ℕ) (operationId : Option Uuid)
  | artifact (artifactId : Uuid)
deriving DecidableEq

/-- The response without its `execution_version`. -/
def EffectResponse.identity : EffectResponse → EffectResponse
  | .command executionId _ operationId => .command executionId 0 operationId
  | .artifact artifactId => .artifact artifactId

/-- A row of `agent_executor_effects`; its key is the effect key. -/
structure EffectRow where
  taskId : Uuid
  kind : EffectKind
  inputSha256 : Sha256
  requestSha256 : Sha256
  request : ExecutorRequest
  response : Option EffectResponse

/-- What happened, for the theorems. -/
inductive Event
  /-- A node completed and the graph was checkpointed: what it was given, and the state before and
  after. -/
  | ran (node : Node) (svc : Services) (before after : SessionState)
  /-- `PlanRepository.persist` inserted a revision. -/
  | persisted (revisionId : Uuid) (revision : Revision)
  /-- A request left for the Executor. -/
  | sent (taskId : Uuid) (request : ExecutorRequest)
  /-- `EffectProjections.terminal` closed a Task, whose row had this execution. -/
  | closed (taskId : Uuid) (executionId : Option Uuid) (status : TaskStatus)

/-- The tables of one session, and the log. -/
structure World where
  tasks : Table Uuid TaskRow := .empty
  lock : Option SessionLock := none
  plans : Table Uuid PlanRow := .empty
  revisions : Table Uuid Revision := .empty
  effects : Table EffectKey EffectRow := .empty
  bindings : Table Uuid Binding := .empty
  log : List Event := []

/-- One more entry of the log. -/
def World.logged (w : World) (e : Event) : World := { w with log := w.log ++ [e] }

/-- What is fixed while the service runs: its settings and its registry, and the functions whose
values the model does not look into. -/
structure Deployment where
  /-- `ToolRegistry.get_tool`. -/
  getTool : String → Option ToolManifest
  /-- The checked parameters of a tool, and its source with the call appended. -/
  toolSource : ToolManifest → Dict → Except Raised String
  /-- The checked source of a custom Step. -/
  customSource : String → Except Raised String
  /-- The checksum of a text. -/
  sha256 : String → Sha256
  /-- `_payload_hash`. -/
  payloadHash : PlanDraft → Sha256
  /-- `digest` of the inputs of an effect. -/
  inputDigest : EffectInputs → Sha256
  /-- `digest` of a request. -/
  requestDigest : ExecutorRequest → Sha256
  /-- `TaskTurn.fingerprint`. -/
  fingerprint : TaskTurn → Sha256
  /-- `settings.correction_limit`. -/
  correctionLimit : ℕ

/-- A computation of the services. -/
abbrev Run := Prog World Raised

/-- `state[key]`. -/
def need {α : Type} (key : String) (x : Option α) : Run α := .demand x (.keyError key)

/-! ## Tasks and the session lock -/

/-- `TaskRepository.update_status`. -/
def updateStatus (taskId : Uuid) (status : TaskStatus) : Run Unit :=
  .transact fun w =>
    match w.tasks.get taskId with
    | none => .error (.lookupError "Unknown task")
    | some _ => .ok ((), { w with tasks := w.tasks.modifyAt taskId fun t => { t with status } })

/-- `TaskRepository.lock_session`. -/
def lockSession (taskId : Uuid) : Run Unit :=
  .transact fun w =>
    match w.tasks.get taskId with
    | none => .error (.lookupError "Unknown task")
    | some _ =>
      match w.lock with
      | some lock =>
        if lock.activeTaskId ≠ taskId then .error (.sessionLocked lock.activeTaskId)
        else .ok ((), w)
      | none => .ok ((), { w with lock := some ⟨taskId, none⟩ })

/-- The row of a Task that is admitted. -/
def World.accept (w : World) (taskId : Uuid) : World :=
  { w with tasks := w.tasks.insertIfAbsent taskId ⟨.accepted, none, none, none⟩ }

/-- `EffectProjections.terminal`. -/
def terminal (taskId : Uuid) (status : TaskStatus) (message : String)
    (metadata : Option TerminalMetadata) : Run Unit :=
  .transact fun w =>
    if status.isTerminal = false then
      .error (.valueError "Terminal projection requires terminal status")
    else
      match w.tasks.get taskId with
      | none => .error (.lookupError "Unknown terminal Task")
      | some task =>
        if task.status.isTerminal then
          -- A second result must be the same one.
          if task.status ≠ status ∨ task.terminalMessage ≠ some message ∨
              task.assistant ≠ some (message, metadata) then
            .error (.valueError "Terminal Task result cannot change")
          else .ok ((), w)
        else
          .ok ((), { w with
            tasks := w.tasks.modifyAt taskId fun t =>
              { t with
                status, terminalMessage := some message, assistant := some (message, metadata) }
            -- The lock goes with the result.
            lock := w.lock.filter fun l => l.activeTaskId ≠ taskId
            log := w.log ++ [.closed taskId task.executionId status] })

/-! ## Plans -/

/-- `CompiledStep`. -/
structure CompiledStep where
  sequence : ℕ
  source : String
  sourceSha256 : Sha256

/-- `SourceCompiler.compile`. -/
def compile (D : Deployment) (step : PlanStepDraft) : Except Raised CompiledStep :=
  match step.planningKind with
  | .toolPlan =>
    match step.tool, step.skill with
    | some tool, some skill =>
      match D.getTool tool.name with
      | none => .error (.keyError tool.name)
      | some manifest =>
        if manifest.tool ≠ tool ∨ manifest.skill ≠ skill then
          .error (.valueError "Plan Step lineage does not match the registry")
        else
          match D.toolSource manifest step.parameters with
          | .error e => .error e
          | .ok source => .ok ⟨step.sequence, source, D.sha256 source⟩
    | _, _ => .error (.valueError "Tool Step is missing lineage")
  | .customCode =>
    match D.customSource (step.customCode.getD "") with
    | .error e => .error e
    | .ok source => .ok ⟨step.sequence, source, D.sha256 source⟩
  | .fixedWorkflow => .error (.valueError "Cannot compile planning kind: FIXED_WORKFLOW")

/-- One Step of `DurablePlans._compile`: the compiled Step with the path of its source file. -/
def compileFile (D : Deployment) (taskId : Uuid) (step : PlanStepDraft) :
    Except Raised (CompiledStep × InputPath) :=
  match compile D step with
  | .error e => .error e
  | .ok item => .ok (item, ⟨taskId, item.sourceSha256, "py"⟩)

/-- The row of a compiled Step. -/
def planStep (draft : PlanStepDraft) (item : CompiledStep) (path : InputPath) : PlanStep where
  sequence := item.sequence
  title := draft.title
  purpose := draft.purpose
  selectionRationale := draft.selectionRationale
  skillRef := draft.skill
  toolRef := draft.tool
  parameters := draft.parameters
  compiledSourceSha256 := item.sourceSha256
  compiledSourcePath := path
  timeoutSeconds := draft.timeoutSeconds

/-- The rows of a revision: each compiled Step with the draft at its sequence. -/
def planSteps (plan : PlanDraft) (compiled : List (CompiledStep × InputPath)) :
    Except Raised (List PlanStep) :=
  compiled.mapM fun c =>
    match plan.steps[c.1.sequence]? with
    | none => .error .other
    | some draft => .ok (planStep draft c.1 c.2)

/-- What `_existing_revision` compares of a Step. -/
def PlanStep.compiledIdentity (step : PlanStep) : ℕ × Sha256 × InputPath :=
  (step.sequence, step.compiledSourceSha256, step.compiledSourcePath)

/-- The stored plan of a revision. -/
def Revision.persistedPlan (r : Revision) (revisionId : Uuid) : PersistedPlan :=
  ⟨r.planId, revisionId, r.revisionNumber, r.publicPayloadHash, r.compiledBundleId⟩

/-- The revision of a Task with a number. -/
def World.revisionAt (w : World) (taskId : Uuid) (number : ℕ) : Option (Uuid × Revision) :=
  w.revisions.entries.find? fun e => e.2.taskId = taskId ∧ e.2.revisionNumber = number

/-- `_existing_revision`. -/
def existingRevision (w : World) (taskId : Uuid) (number : ℕ) (payloadHash registryHash : Sha256)
    (feedback : Option String) (compiled : List (CompiledStep × InputPath)) :
    Except Raised (Option PersistedPlan) :=
  match w.revisionAt taskId number with
  | none =>
    if number ≠ ((w.plans.get taskId).elim 0 PlanRow.currentRevision) + 1 then
      .error (.valueError "Plan revision must advance exactly once")
    else .ok none
  | some (revisionId, r) =>
    -- Both sides are sorted by the source; equal sorted lists are permutations of one another.
    if r.publicPayloadHash ≠ payloadHash ∨ r.registrySnapshotHash ≠ registryHash ∨
        r.feedback ≠ feedback ∨
        ¬(r.steps.map PlanStep.compiledIdentity).Perm
          (compiled.map fun c => (c.1.sequence, c.1.sourceSha256, c.2)) then
      .error (.valueError "Plan revision was reused with different input")
    else .ok (some (r.persistedPlan revisionId))

/-- The plan of a Task, at the revision that comes next. -/
def World.nextPlanRow (w : World) (taskId newPlanId : Uuid) : PlanRow :=
  match w.plans.get taskId with
  | none => ⟨newPlanId, 1⟩
  | some p => { p with currentRevision := p.currentRevision + 1 }

/-- The tables with a plan moved on to a new revision. -/
def World.withRevision (w : World) (row : PlanRow) (revisions : Table Uuid Revision)
    (revisionId : Uuid) (r : Revision) : World :=
  { w with
    plans := (w.plans.insertIfAbsent r.taskId row).modifyAt r.taskId fun _ => row
    revisions
    log := w.log ++ [.persisted revisionId r] }

/-- `PlanRepository.persist`, called with an expected revision number, in one step. -/
def persistPlan (D : Deployment) (svc : Services) (taskId : Uuid) (plan : PlanDraft)
    (compiled : List (CompiledStep × InputPath)) (feedback : Option String) (expected : ℕ) :
    Run PersistedPlan :=
  .transact fun w =>
    match w.tasks.get taskId with
    | none => .error (.lookupError "Unknown plan Task")
    | some _ =>
      match existingRevision w taskId expected (D.payloadHash plan)
        svc.registrySnapshotHash feedback
          compiled with
      | .error e => .error e
      | .ok (some persisted) => .ok (persisted, w)
      | .ok none =>
        match planSteps plan compiled with
        | .error e => .error e
        | .ok steps =>
          let row := w.nextPlanRow taskId svc.newPlanId
          let r : Revision := ⟨taskId, row.id, row.currentRevision, plan, D.payloadHash plan,
            svc.newBundleId, svc.registrySnapshotHash, feedback, steps⟩
          match w.revisions.insert svc.newRevisionId r with
          | none => .error .other
          | some revisions =>
            .ok (r.persistedPlan svc.newRevisionId,
              w.withRevision row revisions svc.newRevisionId r)

/-- `PlanRepository.approved_steps`. -/
def World.approvedSteps (w : World) (revisionId : Uuid) : List PlanStep :=
  match w.revisions.get revisionId with
  | none => []
  | some r => r.steps.insertionSort fun a b => a.sequence ≤ b.sequence

/-! ## The effect journal -/

/-- `_record`: the row, after its stored request is checked against its digest. -/
def recordOf (D : Deployment) (row : EffectRow) : Except Raised EffectRow :=
  if D.requestDigest row.request ≠ row.requestSha256 then
    .error (.valueError "Persisted Executor request checksum mismatch")
  else .ok row

/-- `validate_identity`. -/
def validateIdentity (record : EffectRow) (taskId : Uuid) (kind : EffectKind)
    (inputSha256 : Sha256) :
    Run Unit :=
  .refuseIf (¬(record.taskId = taskId ∧ record.kind = kind ∧ record.inputSha256 = inputSha256))
    (.valueError "Executor effect key was reused with different input")

/-- `EffectStore.get`. -/
def getEffect (D : Deployment) (key : EffectKey) : Run (Option EffectRow) :=
  .query fun w =>
    match w.effects.get key with
    | none => .ok none
    | some row =>
      match recordOf D row with
      | .error e => .error e
      | .ok record => .ok (some record)

/-- `INSERT … ON CONFLICT DO NOTHING` of a prepared effect. -/
def World.withEffect (w : World) (key : EffectKey) (row : EffectRow) : World :=
  { w with effects := w.effects.insertIfAbsent key row }

/-- `EffectStore.prepare`; the identity of the stored row is checked by the caller as well. -/
def prepareEffect (D : Deployment) (key : EffectKey) (taskId : Uuid) (kind : EffectKind)
    (inputSha256 : Sha256) (request : ExecutorRequest) : Run EffectRow :=
  .transact fun w =>
    let w' := w.withEffect key
      ⟨taskId, kind, inputSha256, D.requestDigest request, request, none⟩
    match w'.effects.get key with
    | none => .error .assertionError
    | some row =>
      match recordOf D row with
      | .error e => .error e
      | .ok record =>
        if record.taskId = taskId ∧ record.kind = kind ∧ record.inputSha256 = inputSha256 then
          .ok (record, w')
        else .error (.valueError "Executor effect key was reused with different input")

/-- `EffectStore.complete`. -/
def completeEffect (D : Deployment) (key : EffectKey) (response : EffectResponse) : Run EffectRow :=
  .transact fun w =>
    match w.effects.get key with
    | none => .error (.lookupError "Executor request was not prepared")
    | some row =>
      match row.response with
      | some previous =>
        -- The first response stays, and another one must have its identity.
        if response.identity ≠ previous.identity then
          .error (.valueError "Executor effect response identity changed")
        else
          match recordOf D row with
          | .error e => .error e
          | .ok record => .ok (record, w)
      | none =>
        let written := { row with response := some response }
        match recordOf D written with
        | .error e => .error e
        | .ok record => .ok (record, { w with effects := w.effects.modifyAt key fun _ => written })

/-- A request leaves for the Executor. -/
def post (taskId : Uuid) (request : ExecutorRequest) : Run Unit :=
  .transact fun w => .ok ((), w.logged (.sent taskId request))

/-- The first half of `EffectJournal.run`: the record that is stored, or a new one. -/
def storedRecord (D : Deployment) (taskId : Uuid) (key : EffectKey) (kind : EffectKind)
    (inputs : EffectInputs) (prepare : Run ExecutorRequest) : Option EffectRow → Run EffectRow
  | some record => pure record
  | none => do
    let request ← prepare
    prepareEffect D key taskId kind (D.inputDigest inputs) request

/-- The second half of `EffectJournal.run`. The reply can be lost: the identical saved request is
sent again. -/
def completedRecord (D : Deployment) (key : EffectKey)
    (send : ExecutorRequest → Run EffectResponse) (record : EffectRow) : Run EffectRow :=
  match record.response with
  | some _ => pure record
  | none => do
    let response ← send record.request
    completeEffect D key response

/-- `EffectJournal.run`. -/
def journalRun (D : Deployment) (taskId : Uuid) (key : EffectKey) (kind : EffectKind)
    (inputs : EffectInputs) (prepare : Run ExecutorRequest)
    (send : ExecutorRequest → Run EffectResponse) : Run EffectRow := do
  let found ← getEffect D key
  let record ← storedRecord D taskId key kind inputs prepare found
  validateIdentity record taskId kind (D.inputDigest inputs)
  completedRecord D key send record

/-! ## Executor bindings -/

/-- The tables with a Task bound to its execution. -/
def World.withBinding (w : World) (taskId : Uuid) (b : Binding) : World :=
  { w with
    tasks := w.tasks.modifyAt taskId fun t => { t with executionId := some b.executionId }
    lock := w.lock.map fun l =>
      if l.activeTaskId = taskId then { l with executionId := some b.executionId } else l
    bindings := w.bindings.insertIfAbsent taskId b }

/-- `EffectProjections.binding`. -/
def projectBinding (taskId executionId : Uuid) (executionVersion : ℕ) (operationId : Option Uuid)
    (nextStepSequence : Option ℕ) (create : Bool) : Run Unit :=
  .transact fun w =>
    match w.tasks.get taskId with
    | none => .error (.lookupError "Unknown effect Task")
    | some task =>
      match w.bindings.get taskId with
      | none =>
        match create, operationId, nextStepSequence with
        | true, some operationId, some nextStepSequence =>
          if task.executionId ≠ none ∧ task.executionId ≠ some executionId then
            .error (.valueError "Task is bound to another Execution")
          else if w.bindings.entries.any fun b => b.2.executionId = executionId then
            .error .other
          else
            .ok ((), w.withBinding taskId
              ⟨executionId, operationId, executionVersion, nextStepSequence, 0⟩)
        | true, some _, none => .error (.valueError "Initial binding requires Step sequence")
        | _, _, _ => .error (.lookupError "Executor binding does not exist")
      | some b =>
        if b.executionId ≠ executionId then
          .error (.valueError "Task is bound to another Execution")
        else
          let versioned := { b with executionVersion := max b.executionVersion executionVersion }
          let commit (b' : Binding) : Except Raised (Unit × World) :=
            .ok ((), { w with bindings := w.bindings.modifyAt taskId fun _ => b' })
          match nextStepSequence with
          | none => commit versioned
          | some next =>
            if next = b.nextStepSequence then
              if operationId ≠ some b.operationId then
                .error (.valueError "Step sequence has another Operation")
              else commit versioned
            else if b.nextStepSequence < next then
              match operationId, create with
              | some operationId, false =>
                commit { versioned with nextStepSequence := next, operationId }
              | _, _ => .error (.valueError "Invalid binding sequence advance")
            -- An obsolete receipt must not rewind the current Operation.
            else commit versioned

/-- `ExecutionRepository.for_task`. -/
def bindingForTask (taskId : Uuid) : Run Binding :=
  .query fun w =>
    match w.bindings.get taskId with
    | none => .error (.lookupError "Task has no Executor binding")
    | some b => .ok b

/-- `ExecutionRepository.update`, as reconciliation calls it. -/
def updateBinding (taskId : Uuid) (executionVersion lastEventSequence : ℕ) : Run Unit :=
  .transact fun w =>
    match w.bindings.get taskId with
    | none => .error (.lookupError "Executor binding does not exist")
    | some _ =>
      .ok ((), { w with
        bindings := w.bindings.modifyAt taskId fun b =>
          { b with
            executionVersion, lastEventSequence := max b.lastEventSequence lastEventSequence } })

end ExAgent.Graph
