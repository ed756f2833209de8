import ExAgent.Workflows.Tables

/-!
# The transactions of the lifecycle

`WorkflowLifecycleRepository`
(`ex_agent/persistence/repositories/workflow_lifecycle.py`) and `WorkflowPromotionRepository.create`
(`promotions.py`), statement by statement, with the check of `WorkflowPromotionService.promote`
(`application/promotions.py`) before it.

A lifecycle transaction first takes the advisory lock of its key and looks for an action under it,
then locks its workflow. A review and an activation deactivate the versions of the workflow by one
`UPDATE` and then write the version they are about as an object of the session. What such a write
sends to the database depends on what the session believes is stored (`VersionObject`): SQLAlchemy
flushes the object before the `UPDATE` and applies the `UPDATE` to it afterwards, so that `active =
True` is a change even of a version that was active before.
-/

namespace ExAgent.Workflows

open Lib ExAgent.Graph

/-! ## Objects of a session -/

/-- A version in a session: its row as the session knows it stored, and as it is now. -/
structure VersionObject where
  stored : VersionRow
  current : VersionRow

namespace VersionObject

/-- The object of a row that was read. -/
def load (row : VersionRow) : VersionObject := ⟨row, row⟩

/-- An assignment to attributes. -/
def set (o : VersionObject) (f : VersionRow → VersionRow) : VersionObject :=
  { o with current := f o.current }

/-- The object after a flush. -/
def flushed (o : VersionObject) : VersionObject := ⟨o.current, o.current⟩

/-- The object after an `UPDATE` that meets it, by `synchronize_session`. -/
def synchronize (o : VersionObject) (f : VersionRow → VersionRow) : VersionObject :=
  ⟨f o.stored, f o.current⟩

/-- A column of the `UPDATE` of a flush: only what differs is written. -/
def column {α : Type} [DecidableEq α] (stored current row : α) : α :=
  if current = stored then row else current

/-- The `UPDATE` of a flush. -/
def changes (o : VersionObject) (row : VersionRow) : VersionRow :=
  { row with
    active := column o.stored.active o.current.active row.active
    reviewStatus := column o.stored.reviewStatus o.current.reviewStatus row.reviewStatus
    reviewedBy := column o.stored.reviewedBy o.current.reviewedBy row.reviewedBy
    reviewReason := column o.stored.reviewReason o.current.reviewReason row.reviewReason
    updatedBy := column o.stored.updatedBy o.current.updatedBy row.updatedBy }

/-- A column that is written as it is stays as it is. -/
@[simp]
theorem column_stored {α : Type} [DecidableEq α] (stored current : α) :
    column stored current stored = current := by
  unfold column
  split
  · rename_i h
    exact h.symm
  · rfl

/-- A session whose belief is right writes its object. -/
theorem changes_stored (o : VersionObject)
    (hw : o.current.workflowId = o.stored.workflowId) (hn : o.current.version = o.stored.version)
    (hc : o.current.content = o.stored.content) : o.changes o.stored = o.current := by
  simp only [changes, column_stored]
  rw [← hw, ← hn, ← hc]

end VersionObject

/-! ## Calls -/

/-- The exceptions of the repositories. -/
inductive Error
  | lookupError (text : String)
  | lifecycleConflict (text : String)
  | promotionConflict (text : String)
  | valueError (text : String)
  | runtimeError (text : String)
  | integrityError
  /-- What `eligible_source` and `prepare_version` raise. -/
  | notPrepared (text : String)
deriving DecidableEq

/-- `WorkflowPromotionResult`. -/
structure PromotionResult where
  workflowId : Uuid
  workflowVersionId : Uuid
  version : ℕ
  created : Bool
  publicPayloadHash : Sha256
deriving DecidableEq

/-- What a call returns. -/
inductive Answer
  | none
  | action (r : LifecycleResult)
  | promotion (r : PromotionResult)
deriving DecidableEq

/-- How a call ends. -/
abbrev Result := Except Error Answer

/-- A transaction of a repository. -/
abbrev Transaction := Txn Db RowKey Row Result

/-- An exception rolls the transaction back. -/
def raise (e : Error) : Transaction := .ret (.error e)

/-- What every lifecycle call is given. -/
structure LifecycleCall where
  workflowId : Uuid
  actorUserId : String
  idempotencyKey : String
  requestHash : Sha256
  policyVersion : String
deriving DecidableEq

/-- A step of the source Task, by its lineage. -/
structure SourceStep where
  sourcePlanId : Uuid
  sourcePlanRevisionId : Uuid
deriving DecidableEq

/-- `PromotionSource`. -/
structure PromotionSource where
  taskId : Uuid
  taskUserId : String
  taskProjectId : String
  taskExecutionId : Option Uuid
  steps : List SourceStep
deriving DecidableEq

/-- What a new version is made from. -/
structure NewVersion where
  /-- The generated key of the row. -/
  id : Uuid
  source : PromotionSource
  requestExamples : List String
  tags : List String
  plan : PlanDraft
  inputContract : Dict
  embeddingModel : String
  registrySnapshotHash : String
  searchableText : String
deriving DecidableEq

/-- A decision on a version. -/
inductive Decision
  | approve
  | reject
deriving DecidableEq

/-- The action of a review. -/
def Decision.action : Decision → LifecycleAction
  | .approve => .versionApproved
  | .reject => .versionRejected

/-- The status after a review. -/
def Decision.status : Decision → ReviewStatus
  | .approve => .approved
  | .reject => .rejected

/-- The action of a change of status. -/
def WorkflowStatus.action : WorkflowStatus → LifecycleAction
  | .active => .workflowActivated
  | .inactive => .workflowDeactivated

/-- What the repositories are configured with: `_payload_hash` of a plan and its input contract. -/
structure Settings where
  payloadHash : PlanDraft → Dict → Sha256

/-! ## What the transactions share -/

/-- `_existing_result`. -/
def existingResult (c : LifecycleCall) (action : LifecycleAction) (row : ActionRow) : Result :=
  if row.workflowId ≠ c.workflowId ∨ row.actorUserId ≠ c.actorUserId ∨ row.action ≠ action ∨
      row.requestHash ≠ c.requestHash then
    .error (.lifecycleConflict "Idempotency key payload mismatch")
  else .ok (.action { row.resultPayload with applied := false })

/-- `SELECT … FOR UPDATE` of a workflow. -/
def lockWorkflow (id : Uuid) (next : Option WorkflowRow → Transaction) : Transaction :=
  .lock (.workflow id) fun row => next (row.bind Row.workflow?)

/-- `SELECT … FOR UPDATE` of an action by its key. -/
def lockAction (key : String) (next : Option ActionRow → Transaction) : Transaction :=
  .lock (.action key) fun row => next (row.bind Row.action?)

/-- `_locked_existing`: the transaction goes on when the key is free. -/
def lockedExisting (c : LifecycleCall) (action : LifecycleAction) (next : Transaction) :
    Transaction :=
  .lock (.advisory (idempotencyLock c.idempotencyKey)) fun _ =>
    lockAction c.idempotencyKey fun row =>
      match row with
      | some row => .ret (existingResult c action row)
      | none => next

/-- `_locked_workflow`. -/
def lockedWorkflow (workflowId : Uuid) (next : WorkflowRow → Transaction) : Transaction :=
  lockWorkflow workflowId fun row =>
    match row with
    | some workflow => next workflow
    | none => raise (.lookupError ("Unknown Workflow: " ++ toString workflowId))

/-- `_workflow_version`. -/
def workflowVersion (workflowId versionId : Uuid) (next : VersionRow → Transaction) : Transaction :=
  .select fun db =>
    match db.versions.get versionId with
    | some version =>
      if version.workflowId = workflowId then next version
      else raise (.lookupError ("Unknown Workflow version: " ++ toString versionId))
    | none => raise (.lookupError ("Unknown Workflow version: " ++ toString versionId))

/-- What the `UPDATE` of `_deactivate_versions` writes to a row. -/
def deactivated (actorUserId : String) (v : VersionRow) : VersionRow :=
  { v with active := false, updatedBy := actorUserId }

/-- The rows that the `UPDATE` of `_deactivate_versions` is about. -/
def isVersionOf (workflowId : Uuid) : Row → Bool
  | .version v => v.workflowId = workflowId
  | _ => false

/-- The rows that the `UPDATE` finds in its snapshot. -/
def versionsOf (db : Db) (workflowId : Uuid) : List RowKey :=
  (db.versions.entries.filter fun e => e.2.workflowId = workflowId).map fun e => .version e.1

/-- The keys of locked versions. -/
def versionIds (keys : List RowKey) : List Uuid :=
  keys.filterMap fun k =>
    match k with
    | .version id => some id
    | _ => none

/-- `_deactivate_versions`, up to the write. -/
def deactivateVersions (workflowId : Uuid) (next : List Uuid → Transaction) : Transaction :=
  .select fun db =>
    Txn.lockEach (isVersionOf workflowId) (versionsOf db workflowId) [] fun taken =>
      next (versionIds taken)

/-- `_version_result`. -/
def versionResult (workflowId : Uuid) (workflow : WorkflowRow) (versionId : Uuid)
    (version : VersionRow) (action : LifecycleAction) : LifecycleResult where
  workflowId
  workflowVersionId := some versionId
  version := some version.version
  publicPayloadHash := some version.content.publicPayloadHash
  action
  workflowStatus := workflow.status
  reviewStatus := some version.reviewStatus
  versionActive := some version.active
  applied := true

/-- `_add_action`. -/
def addAction (c : LifecycleCall) (result : LifecycleResult) (reason : Option String) (db : Db) :
    Option Db :=
  db.insertAction c.idempotencyKey
    { workflowId := result.workflowId
      workflowVersionId := result.workflowVersionId
      actorUserId := c.actorUserId
      action := result.action
      requestHash := c.requestHash
      reason
      policyVersion := c.policyVersion
      resultPayload := result }

/-- `_only_value`. -/
def onlyValue (values : List Uuid) : Option Uuid :=
  match values.dedup with
  | [value] => some value
  | _ => none

/-- `add_workflow_steps`. -/
def workflowSteps (versionId : Uuid) :
    ℕ → List PlanStepDraft → List SourceStep → Except Error (List StepRow)
  | _, [], [] => .ok []
  | sequence, step :: steps, row :: rows =>
    match step.skill, step.tool with
    | some skill, some tool => do
      let more ← workflowSteps versionId (sequence + 1) steps rows
      .ok ({ workflowVersionId := versionId
             sourcePlanRevisionId := row.sourcePlanRevisionId
             sequence
             skill
             tool
             purpose := step.purpose
             selectionRationale := step.selectionRationale
             parameterTemplate := step.parameters
             expectedOutputs := step.expectedOutputs
             validationCriteria := step.validationCriteria
             timeoutSeconds := step.timeoutSeconds } :: more)
    | _, _ => .error (.valueError "Promoted Workflow Step requires Skill/Tool lineage")
  -- `zip` is strict.
  | _, _ :: _, [] => .error (.valueError "zip() argument 2 is shorter than argument 1")
  | _, [], _ :: _ => .error (.valueError "zip() argument 2 is longer than argument 1")

/-- The columns of a version that the two ways to make one share. -/
def NewVersion.content (S : Settings) (new : NewVersion) (actorUserId policyVersion : String) :
    VersionContent where
  sourceTaskId := new.source.taskId
  sourcePlanId := onlyValue (new.source.steps.map SourceStep.sourcePlanId)
  sourcePlanRevisionId := onlyValue (new.source.steps.map SourceStep.sourcePlanRevisionId)
  sourceExecutionId := new.source.taskExecutionId
  plan := new.plan
  inputContract := new.inputContract
  toolRegistrySnapshotHash := new.registrySnapshotHash
  searchableText := new.searchableText
  embeddingModel := new.embeddingModel
  requestExamples := new.requestExamples
  tags := new.tags
  promotionPolicyVersion := policyVersion
  publicPayloadHash := S.payloadHash new.plan new.inputContract
  promotedBy := actorUserId

/-! ## `WorkflowLifecycleRepository` -/

namespace WorkflowLifecycleRepository

/-- `existing`. -/
def existing (c : LifecycleCall) (action : LifecycleAction) : Transaction :=
  .select fun db =>
    match db.actions.get c.idempotencyKey with
    | some row => .ret (existingResult c action row)
    | none => .ret (.ok .none)

/-- The version that `create_version` adds. -/
def pendingVersion (S : Settings) (c : LifecycleCall) (new : NewVersion) (workflow : WorkflowRow) :
    VersionRow where
  workflowId := c.workflowId
  version := workflow.latestVersion + 1
  content := new.content S c.actorUserId c.policyVersion
  active := false
  reviewStatus := .pendingReview
  updatedBy := c.actorUserId

/-- What `create_version` writes. -/
def created (S : Settings) (c : LifecycleCall) (new : NewVersion) (workflow : WorkflowRow)
    (steps : List StepRow) (db : Db) : Option Db := do
  let version := pendingVersion S c new workflow
  let result := versionResult c.workflowId workflow new.id version .versionCreated
  let db ← db.insertVersion new.id version
  let db := db.updateWorkflow c.workflowId fun w =>
    { w with latestVersion := workflow.latestVersion + 1, updatedBy := c.actorUserId }
  let db ← addAction c result none (db.addSteps steps)
  some (db.addEvent (.versionCreated new.source.taskId result))

/-- `create_version`. -/
def createVersion (S : Settings) (c : LifecycleCall) (new : NewVersion) : Transaction :=
  lockedExisting c .versionCreated <|
    lockedWorkflow c.workflowId fun workflow =>
      -- The flush sends the version before its steps are looked at.
      .select fun db =>
        if (db.insertVersion new.id (pendingVersion S c new workflow)).isNone then
          raise .integrityError
        else match workflowSteps new.id 0 new.plan.steps new.source.steps with
          | .error e => raise e
          | .ok steps =>
            .commit (created S c new workflow steps)
              (.ok (.action (versionResult c.workflowId workflow new.id
                (pendingVersion S c new workflow) .versionCreated)))
              (raise .integrityError)

/-- The version after the assignments of a review. -/
def reviewed (c : LifecycleCall) (decision : Decision) (reason : Option String) (v : VersionRow) :
    VersionRow :=
  { v with
    reviewStatus := decision.status
    reviewedBy := some c.actorUserId
    reviewReason := reason
    updatedBy := c.actorUserId }

/-- `version.active = True`. -/
def activated (v : VersionRow) : VersionRow := { v with active := true }

/-- The version of an approval, before the flush at the commit. -/
def approvedObject (c : LifecycleCall) (reason : Option String) (version : VersionRow) :
    VersionObject :=
  (((VersionObject.load version).set (reviewed c .approve reason)).flushed.synchronize
    (deactivated c.actorUserId)).set activated

/-- What an approval writes. -/
def approved (c : LifecycleCall) (versionId : Uuid) (reason : Option String)
    (workflow : WorkflowRow) (version : VersionRow) (taken : List Uuid) (db : Db) : Option Db := do
  let object := (VersionObject.load version).set (reviewed c .approve reason)
  let db ← db.updateVersion versionId object.changes
  let db := db.deactivate taken c.actorUserId
  let object := approvedObject c reason version
  let db ← db.updateVersion versionId object.changes
  let db := db.updateWorkflow c.workflowId fun w => { w with updatedBy := c.actorUserId }
  addAction c (versionResult c.workflowId workflow versionId object.current .versionApproved)
    reason db

/-- What a rejection writes. -/
def rejected (c : LifecycleCall) (versionId : Uuid) (reason : Option String)
    (workflow : WorkflowRow) (version : VersionRow) (db : Db) : Option Db := do
  let object := (VersionObject.load version).set (reviewed c .reject reason)
  let db ← db.updateVersion versionId object.changes
  addAction c (versionResult c.workflowId workflow versionId object.current .versionRejected)
    reason db

/-- `review_version`. -/
def reviewVersion (c : LifecycleCall) (versionId : Uuid) (decision : Decision)
    (reason : Option String) : Transaction :=
  lockedExisting c decision.action <|
    lockedWorkflow c.workflowId fun workflow =>
      workflowVersion c.workflowId versionId fun version =>
        if version.reviewStatus ≠ .pendingReview then
          raise (.lifecycleConflict "Only PENDING_REVIEW versions can be reviewed")
        else
          .lock (.version versionId) fun _ =>
            match decision with
            | .approve =>
              -- An approved version takes the place of the active ones.
              deactivateVersions c.workflowId fun taken =>
                .commit (approved c versionId reason workflow version taken)
                  (.ok (.action (versionResult c.workflowId workflow versionId
                    (approvedObject c reason version).current .versionApproved)))
                  (raise .integrityError)
            | .reject =>
              .commit (rejected c versionId reason workflow version)
                (.ok (.action (versionResult c.workflowId workflow versionId
                  (reviewed c .reject reason version) .versionRejected)))
                (raise .integrityError)

/-- The version of an activation, before the flush at the commit. -/
def activatedObject (c : LifecycleCall) (version : VersionRow) : VersionObject :=
  ((VersionObject.load version).synchronize (deactivated c.actorUserId)).set fun v =>
    { activated v with updatedBy := c.actorUserId }

/-- What `activate_version` writes. -/
def switched (c : LifecycleCall) (versionId : Uuid) (reason : Option String)
    (workflow : WorkflowRow) (version : VersionRow) (taken : List Uuid) (db : Db) : Option Db := do
  let db := db.deactivate taken c.actorUserId
  let object := activatedObject c version
  let db ← db.updateVersion versionId object.changes
  let db := db.updateWorkflow c.workflowId fun w => { w with updatedBy := c.actorUserId }
  addAction c (versionResult c.workflowId workflow versionId object.current .versionActivated)
    reason db

/-- `activate_version`. -/
def activateVersion (c : LifecycleCall) (versionId : Uuid) (reason : Option String) :
    Transaction :=
  lockedExisting c .versionActivated <|
    lockedWorkflow c.workflowId fun workflow =>
      workflowVersion c.workflowId versionId fun version =>
        if version.reviewStatus ≠ .approved then
          raise (.lifecycleConflict "Only APPROVED versions can be activated")
        else
          deactivateVersions c.workflowId fun taken =>
            .commit (switched c versionId reason workflow version taken)
              (.ok (.action (versionResult c.workflowId workflow versionId
                (activatedObject c version).current .versionActivated)))
              (raise .integrityError)

/-- The result of a change of status. -/
def statusResult (c : LifecycleCall) (status : WorkflowStatus) : LifecycleResult where
  workflowId := c.workflowId
  action := status.action
  workflowStatus := status
  reviewStatus := none
  versionActive := none
  applied := true

/-- What `update_status` writes. -/
def restated (c : LifecycleCall) (status : WorkflowStatus) (reason : Option String) (db : Db) :
    Option Db :=
  addAction c (statusResult c status) reason
    (db.updateWorkflow c.workflowId fun w => { w with status, updatedBy := c.actorUserId })

/-- `update_status`. -/
def updateStatus (c : LifecycleCall) (status : WorkflowStatus) (reason : Option String) :
    Transaction :=
  lockedExisting c status.action <|
    lockedWorkflow c.workflowId fun _ =>
      .commit (restated c status reason) (.ok (.action (statusResult c status)))
        (raise .integrityError)

end WorkflowLifecycleRepository

/-! ## Promotion -/

/-- What a promotion is asked for, with the keys of its new rows and what `eligible_source` and
`prepare_version` make of the source Task. -/
structure PromoteCall where
  taskId : Uuid
  actorUserId : String
  idempotencyKey : String
  requestHash : Sha256
  name : String
  description : String
  policyVersion : String
  workflowId : Uuid
  /-- The source is that of the Task. -/
  prepared : Except Error { new : NewVersion // new.source.taskId = taskId }
deriving DecidableEq

/-- `_existing_result`. -/
def existingPromotion (p : PromoteCall) (row : PromotionRow) (version : Option VersionRow) :
    Result :=
  if row.taskId ≠ p.taskId ∨ row.actorUserId ≠ p.actorUserId ∨ row.requestHash ≠ p.requestHash then
    .error (.promotionConflict "Idempotency key payload mismatch")
  else match version with
    | none => .error (.runtimeError "Promoted Workflow version is missing")
    | some version => .ok (.promotion
        { workflowId := row.workflowId
          workflowVersionId := row.workflowVersionId
          version := version.version
          created := false
          publicPayloadHash := version.content.publicPayloadHash })

/-- The lookup of a key: by `existing` of the repository and again by `create`. -/
def lookup (p : PromoteCall) (next : Transaction) : Transaction :=
  .select fun db =>
    match db.promotions.get p.idempotencyKey with
    | none => next
    | some row =>
      .select fun db => .ret (existingPromotion p row (db.versions.get row.workflowVersionId))

namespace WorkflowPromotionRepository

/-- The workflow that `create` adds. -/
def newWorkflow (p : PromoteCall) (new : NewVersion) : WorkflowRow where
  name := p.name
  description := p.description
  ownerUserId := some new.source.taskUserId
  ownerProjectId := some new.source.taskProjectId
  createdBy := p.actorUserId
  updatedBy := p.actorUserId

/-- Its first version. -/
def firstVersion (S : Settings) (p : PromoteCall) (new : NewVersion) : VersionRow where
  workflowId := p.workflowId
  version := 1
  content := new.content S p.actorUserId p.policyVersion
  active := true
  reviewStatus := .approved
  reviewedBy := some p.actorUserId
  updatedBy := p.actorUserId

/-- What `create` writes. -/
def promoted (S : Settings) (p : PromoteCall) (new : NewVersion) (steps : List StepRow) (db : Db) :
    Option Db := do
  let db ← db.insertWorkflow p.workflowId (newWorkflow p new)
  let db ← db.insertVersion new.id (firstVersion S p new)
  let db ← (db.addSteps steps).insertPromotion p.idempotencyKey
    { taskId := new.source.taskId
      actorUserId := p.actorUserId
      requestHash := p.requestHash
      workflowId := p.workflowId
      workflowVersionId := new.id
      policyVersion := p.policyVersion }
  some (db.addEvent (.promoted new.source.taskId p.workflowId new.id 1))

/-- The result of `create`. -/
def promotedResult (S : Settings) (p : PromoteCall) (new : NewVersion) : PromotionResult where
  workflowId := p.workflowId
  workflowVersionId := new.id
  version := 1
  created := true
  publicPayloadHash := S.payloadHash new.plan new.inputContract

/-- `create`. -/
def create (S : Settings) (p : PromoteCall) (new : NewVersion) : Transaction :=
  lookup p <| .select fun db =>
    if db.hasName p.name then raise (.promotionConflict "Workflow name already exists")
    else
      -- The flush of the workflow, and the flush of its version.
      .select fun db =>
        if (db.insertWorkflow p.workflowId (newWorkflow p new)).isNone then
          raise (.promotionConflict "Workflow name already exists")
        else .select fun db =>
          if (db.insertVersion new.id (firstVersion S p new)).isNone then raise .integrityError
          else match workflowSteps new.id 0 new.plan.steps new.source.steps with
            | .error e => raise e
            | .ok steps =>
              .commit (promoted S p new steps) (.ok (.promotion (promotedResult S p new)))
                (.select fun db =>
                  if db.hasName p.name then
                    raise (.promotionConflict "Workflow name already exists")
                  else
                    raise (.promotionConflict "Workflow promotion conflicts with existing data"))

end WorkflowPromotionRepository

/-- `WorkflowPromotionService.promote`. -/
def promote (S : Settings) (p : PromoteCall) : Transaction :=
  lookup p <|
    match p.prepared with
    | .error e => raise e
    | .ok new => WorkflowPromotionRepository.create S p new.1

/-! ## The server -/

/-- The calls. -/
inductive Op
  | existing (c : LifecycleCall) (action : LifecycleAction)
  | createVersion (c : LifecycleCall) (new : NewVersion)
  | reviewVersion (c : LifecycleCall) (versionId : Uuid) (decision : Decision)
      (reason : Option String)
  | activateVersion (c : LifecycleCall) (versionId : Uuid) (reason : Option String)
  | updateStatus (c : LifecycleCall) (status : WorkflowStatus) (reason : Option String)
  | promote (p : PromoteCall)
deriving DecidableEq

/-- The transaction of a call. -/
def Op.program (S : Settings) : Op → Transaction
  | .existing c action => WorkflowLifecycleRepository.existing c action
  | .createVersion c new => WorkflowLifecycleRepository.createVersion S c new
  | .reviewVersion c versionId decision reason =>
    WorkflowLifecycleRepository.reviewVersion c versionId decision reason
  | .activateVersion c versionId reason =>
    WorkflowLifecycleRepository.activateVersion c versionId reason
  | .updateStatus c status reason => WorkflowLifecycleRepository.updateStatus c status reason
  | .promote p => Workflows.promote S p

/-- Any calls, in any number and at any time. -/
def workload (S : Settings) : Workload Db RowKey Row Op Result where
  row := Db.row
  program := Op.program S
  admits _ _ := true

end ExAgent.Workflows
