import ExAgent.Lib.Locking
import ExAgent.Lib.Sha256
import ExAgent.Graph.Contracts
import Mathlib.Data.Int.Notation

/-!
# The tables of reusable workflows

The rows of `agent_workflows`, `agent_workflow_versions`, `agent_workflow_steps`,
`agent_workflow_promotions` and `agent_workflow_lifecycle_actions`
(`ex_agent/persistence/models.py`), and the writes that the two repositories make to them. The
unique indexes are part of the writes, the partial one on active versions included: a write is
`none` when one of them refuses it.

The columns that are the same in every row are left out, and so are timestamps and the vector of a
version.
-/

namespace ExAgent.Workflows

open Lib ExAgent.Graph

/-! ## Rows -/

/-- `status` of a workflow. -/
inductive WorkflowStatus
  | active
  | inactive
deriving DecidableEq

/-- `review_status` of a version. -/
inductive ReviewStatus
  | pendingReview
  | approved
  | rejected
deriving DecidableEq

/-- `action` of a lifecycle action. -/
inductive LifecycleAction
  | versionCreated
  | versionApproved
  | versionRejected
  | versionActivated
  | workflowActivated
  | workflowDeactivated
deriving DecidableEq

/-- A row of `agent_workflows`. -/
structure WorkflowRow where
  name : String
  description : String
  ownerUserId : Option String
  ownerProjectId : Option String
  status : WorkflowStatus := .active
  latestVersion : ℕ := 1
  createdBy : String
  updatedBy : String
deriving DecidableEq

/-- The columns of a version that nothing changes. -/
structure VersionContent where
  sourceTaskId : Uuid
  sourcePlanId : Option Uuid
  sourcePlanRevisionId : Option Uuid
  sourceExecutionId : Option Uuid
  /-- `plan_payload`, with `objective`, `strategy_summary`, `runtime_profile` and, as its
  `expected_artifacts`, `output_contract`. -/
  plan : PlanDraft
  inputContract : Dict
  toolRegistrySnapshotHash : String
  searchableText : String
  embeddingModel : String
  requestExamples : List String
  tags : List String
  promotionPolicyVersion : String
  publicPayloadHash : Sha256
  promotedBy : String
deriving DecidableEq

/-- A row of `agent_workflow_versions`. -/
structure VersionRow where
  workflowId : Uuid
  version : ℕ
  content : VersionContent
  active : Bool
  reviewStatus : ReviewStatus
  reviewedBy : Option String := none
  reviewReason : Option String := none
  updatedBy : String
deriving DecidableEq

/-- A row of `agent_workflow_steps`. -/
structure StepRow where
  workflowVersionId : Uuid
  sourcePlanRevisionId : Uuid
  sequence : ℕ
  skill : SkillReference
  tool : ToolReference
  purpose : String
  selectionRationale : String
  parameterTemplate : Dict
  expectedOutputs : List String
  validationCriteria : List String
  timeoutSeconds : ℕ
deriving DecidableEq

/-- `WorkflowLifecycleResult`. -/
structure LifecycleResult where
  workflowId : Uuid
  workflowVersionId : Option Uuid := none
  version : Option ℕ := none
  publicPayloadHash : Option Sha256 := none
  action : LifecycleAction
  workflowStatus : WorkflowStatus
  reviewStatus : Option ReviewStatus
  versionActive : Option Bool
  applied : Bool
deriving DecidableEq

/-- A row of `agent_workflow_lifecycle_actions`; `idempotency_key` is unique. -/
structure ActionRow where
  workflowId : Uuid
  workflowVersionId : Option Uuid
  actorUserId : String
  action : LifecycleAction
  requestHash : Sha256
  reason : Option String
  policyVersion : String
  resultPayload : LifecycleResult
deriving DecidableEq

/-- A row of `agent_workflow_promotions`; `idempotency_key` is unique. -/
structure PromotionRow where
  taskId : Uuid
  actorUserId : String
  requestHash : Sha256
  workflowId : Uuid
  workflowVersionId : Uuid
  policyVersion : String
deriving DecidableEq

/-- A row that the repositories add to `agent_task_events`, by `event_type` and `payload`. -/
inductive TaskEvent
  | versionCreated (taskId : Uuid) (result : LifecycleResult)
  | promoted (taskId workflowId workflowVersionId : Uuid) (version : ℕ)
deriving DecidableEq

/-- The tables. -/
structure Db where
  workflows : Table Uuid WorkflowRow := .empty
  versions : Table Uuid VersionRow := .empty
  steps : List StepRow := []
  promotions : Table String PromotionRow := .empty
  actions : Table String ActionRow := .empty
  events : List TaskEvent := []

/-- What a transaction can lock. -/
inductive RowKey
  /-- `pg_advisory_xact_lock`. -/
  | advisory (n : ℤ)
  | workflow (id : Uuid)
  | version (id : Uuid)
  | action (idempotencyKey : String)
deriving DecidableEq

/-- What is there to be locked. -/
inductive Row
  | advisory
  | workflow (r : WorkflowRow)
  | version (r : VersionRow)
  | action (r : ActionRow)

/-- The row at a key. An advisory lock can always be taken. -/
def Db.row (db : Db) : RowKey → Option Row
  | .advisory _ => some .advisory
  | .workflow id => (db.workflows.get id).map .workflow
  | .version id => (db.versions.get id).map .version
  | .action key => (db.actions.get key).map .action

/-- The workflow in a row. -/
def Row.workflow? : Row → Option WorkflowRow
  | .workflow r => some r
  | _ => none

/-- The action in a row. -/
def Row.action? : Row → Option ActionRow
  | .action r => some r
  | _ => none

/-- `_idempotency_lock`: the first eight bytes of the digest, as a signed number. -/
def idempotencyLock (key : String) : ℤ :=
  let digest := Sha256.hash (key.toList.flatMap String.utf8EncodeChar)
  let n : ℕ := digest.a.toNat * 2 ^ 32 + digest.b.toNat
  if n < 2 ^ 63 then (n : ℤ) else (n : ℤ) - 2 ^ 64

/-! ## Writes -/

namespace Db

/-- Another version of the workflow is active. -/
def isActiveElsewhere (db : Db) (workflowId id : Uuid) : Bool :=
  db.versions.entries.any fun e =>
    decide (e.1 ≠ id) && e.2.active && decide (e.2.workflowId = workflowId)

/-- A workflow has the name. -/
def hasName (db : Db) (name : String) : Bool := db.workflows.entries.any fun e => e.2.name = name

/-- A version of the workflow has the number. -/
def hasVersion (db : Db) (workflowId : Uuid) (version : ℕ) : Bool :=
  db.versions.entries.any fun e =>
    decide (e.2.workflowId = workflowId) && decide (e.2.version = version)

/-- `INSERT INTO agent_workflows`; `name` is unique. -/
def insertWorkflow (db : Db) (id : Uuid) (row : WorkflowRow) : Option Db :=
  if db.hasName row.name then none
  else (db.workflows.insert id row).map fun workflows => { db with workflows }

/-- `UPDATE agent_workflows` of a locked row. -/
def updateWorkflow (db : Db) (id : Uuid) (f : WorkflowRow → WorkflowRow) : Db :=
  { db with workflows := db.workflows.modifyAt id f }

/-- `INSERT INTO agent_workflow_versions`, with `uq_agent_workflow_version` and
`uq_agent_workflow_versions_active`. -/
def insertVersion (db : Db) (id : Uuid) (row : VersionRow) : Option Db :=
  if db.hasVersion row.workflowId row.version then none
  else if row.active && db.isActiveElsewhere row.workflowId id then none
  else (db.versions.insert id row).map fun versions => { db with versions }

/-- `UPDATE agent_workflow_versions` of a locked row, with `uq_agent_workflow_versions_active`. -/
def updateVersion (db : Db) (id : Uuid) (f : VersionRow → VersionRow) : Option Db :=
  if (db.versions.get id).any fun v =>
    (f v).active && db.isActiveElsewhere v.workflowId id then none
  else some { db with versions := db.versions.modifyAt id f }

/-- `UPDATE agent_workflow_versions SET active = false` of the locked rows. -/
def deactivate (db : Db) (ids : List Uuid) (actorUserId : String) : Db :=
  { db with
    versions := db.versions.modify fun id v =>
      if id ∈ ids then { v with active := false, updatedBy := actorUserId } else v }

/-- `INSERT INTO agent_workflow_steps`. -/
def addSteps (db : Db) (steps : List StepRow) : Db := { db with steps := db.steps ++ steps }

/-- `INSERT INTO agent_workflow_promotions`. -/
def insertPromotion (db : Db) (key : String) (row : PromotionRow) : Option Db :=
  (db.promotions.insert key row).map fun promotions => { db with promotions }

/-- `INSERT INTO agent_workflow_lifecycle_actions`. -/
def insertAction (db : Db) (key : String) (row : ActionRow) : Option Db :=
  (db.actions.insert key row).map fun actions => { db with actions }

/-- `INSERT INTO agent_task_events`. -/
def addEvent (db : Db) (event : TaskEvent) : Db := { db with events := db.events ++ [event] }

/-! ## What the writes do -/

variable {db db' : Db}

/-- An inserted Workflow is new, and no other row changes. -/
theorem insertWorkflow_spec {id : Uuid} {row : WorkflowRow}
    (h : db.insertWorkflow id row = some db') :
    db.workflows.get id = none ∧
      (∀ k, db'.workflows.get k = if k = id then some row else db.workflows.get k) ∧
      db' = { db with workflows := db'.workflows } := by
  unfold insertWorkflow at h
  split at h
  · cases h
  · obtain ⟨workflows, hi, rfl⟩ := Option.map_eq_some_iff.mp h
    obtain ⟨hnone, hget⟩ := Table.get_of_insert hi
    exact ⟨hnone, hget, rfl⟩

/-- No version of the workflow has the number. -/
theorem hasVersion_eq_false {workflowId : Uuid} {version : ℕ} :
    db.hasVersion workflowId version = false ↔
      ∀ id v, db.versions.get id = some v → v.workflowId = workflowId → v.version ≠ version := by
  unfold hasVersion
  rw [List.any_eq_false]
  constructor
  · intro h id v hv hw hn
    have := h (id, v) (Table.mem_entries_iff.mpr hv)
    simp [hw, hn] at this
  · rintro h ⟨id, v⟩ he
    have := h id v (Table.mem_entries_iff.mp he)
    simpa using this

/-- An inserted version is new under its ID and its number, and no other row changes. -/
theorem insertVersion_spec {id : Uuid} {row : VersionRow} (h : db.insertVersion id row = some db') :
    db.versions.get id = none ∧
      (∀ i v, db.versions.get i = some v → v.workflowId = row.workflowId →
      v.version ≠ row.version) ∧
      (∀ k, db'.versions.get k = if k = id then some row else db.versions.get k) ∧
      db' = { db with versions := db'.versions } := by
  unfold insertVersion at h
  split at h
  · cases h
  · rename_i hversion
    split at h
    · cases h
    · obtain ⟨versions, hi, rfl⟩ := Option.map_eq_some_iff.mp h
      obtain ⟨hnone, hget⟩ := Table.get_of_insert hi
      exact ⟨hnone, hasVersion_eq_false.mp (by simpa using hversion), hget, rfl⟩

/-- An updated version changes the versions only. -/
theorem updateVersion_spec {id : Uuid} {f : VersionRow → VersionRow}
    (h : db.updateVersion id f = some db') :
    db' = { db with versions := db.versions.modifyAt id f } := by
  unfold updateVersion at h
  split at h
  · cases h
  · exact (Option.some.inj h).symm

/-- An inserted promotion is new, and no other row changes. -/
theorem insertPromotion_spec {key : String} {row : PromotionRow}
    (h : db.insertPromotion key row = some db') :
    db.promotions.get key = none ∧
      (∀ k, db'.promotions.get k = if k = key then some row else db.promotions.get k) ∧
      db' = { db with promotions := db'.promotions } := by
  obtain ⟨promotions, hi, rfl⟩ := Option.map_eq_some_iff.mp h
  obtain ⟨hnone, hget⟩ := Table.get_of_insert hi
  exact ⟨hnone, hget, rfl⟩

/-- An inserted action is new, and no other row changes. -/
theorem insertAction_spec {key : String} {row : ActionRow}
    (h : db.insertAction key row = some db') :
    db.actions.get key = none ∧
      (∀ k, db'.actions.get k = if k = key then some row else db.actions.get k) ∧
      db' = { db with actions := db'.actions } := by
  obtain ⟨actions, hi, rfl⟩ := Option.map_eq_some_iff.mp h
  obtain ⟨hnone, hget⟩ := Table.get_of_insert hi
  exact ⟨hnone, hget, rfl⟩

end Db

end ExAgent.Workflows
