import ExAgent.Lib.Serial
import ExAgent.Graph.Store

/-!
# `PlanRepository.persist`, statement by statement

The transaction that stores a revision of a Task's plan
(`ex_agent/persistence/repositories/plans.py`), called with an expected revision number. It takes
the row of the Task before the one of the plan: the first revision finds no plan to lock. A revision
that is there already is compared with the call, and a new one has to be the next.

The inserts of a plan, a revision and its Steps become visible with the commit. They stand in one
write, which a unique index can refuse: the keys of the three tables, `(plan_id, revision_number)`
and `(plan_revision_id, sequence)`.
-/

namespace ExAgent.Plans

open Lib ExAgent.Graph

/-- A call of `PlanRepository.persist`, with the ids it draws. -/
structure Persist where
  taskId : Uuid
  plan : PlanDraft
  compiled : List (CompiledStep × InputPath)
  registrySnapshotHash : Sha256
  feedback : Option String
  expectedRevisionNumber : ℕ
  compiledBundleId : Uuid
  newPlanId : Uuid
  newRevisionId : Uuid

/-- What the transaction locks. A plan is found by its Task. -/
inductive RowKey
  | task (id : Uuid)
  | plan (taskId : Uuid)
deriving DecidableEq

/-- What is there to be locked. -/
inductive Row
  | task (r : TaskRow)
  | plan (r : PlanRow)

/-- The Task in a row. -/
def Row.task? : Row → Option TaskRow
  | .task r => some r
  | .plan _ => none

/-- The plan in a row. -/
def Row.plan? : Row → Option PlanRow
  | .plan r => some r
  | .task _ => none

/-- The row at a key. -/
def row (w : World) : RowKey → Option Row
  | .task id => (w.tasks.get id).map .task
  | .plan taskId => (w.plans.get taskId).map .plan

/-- What a call of the repository returns or raises. -/
abbrev Result := Except Raised PersistedPlan

/-- A transaction of the repository. -/
abbrev Transaction := Txn World RowKey Row Result

/-- An exception; the transaction is rolled back. -/
def raise (e : Raised) : Transaction := .ret (.error e)

/-- `SELECT … FOR UPDATE` of a Task. -/
def lockTask (id : Uuid) (next : Option TaskRow → Transaction) : Transaction :=
  .lock (.task id) fun r => next (r.bind Row.task?)

/-- `SELECT … FOR UPDATE` of the plan of a Task. -/
def lockPlan (taskId : Uuid) (next : Option PlanRow → Transaction) : Transaction :=
  .lock (.plan taskId) fun r => next (r.bind Row.plan?)

/-- The rows of `agent_plan_steps` of a revision. -/
def stepsOf (w : World) (revisionId : Uuid) : List PlanStep :=
  (w.revisions.get revisionId).elim [] Revision.steps

/-- `INSERT INTO agent_plans`; the id is unique, and so is the Task. -/
def insertPlan (w : World) (taskId : Uuid) (p : PlanRow) : Option World :=
  if w.plans.entries.any fun e => e.2.id = p.id then none
  else (w.plans.insert taskId p).map fun plans => { w with plans }

/-- `UPDATE agent_plans` of the locked row. -/
def updatePlan (w : World) (taskId : Uuid) (p : PlanRow) : World :=
  { w with plans := w.plans.modifyAt taskId fun _ => p }

/-- `INSERT INTO agent_plan_revisions` and `agent_plan_steps`. -/
def insertRevision (w : World) (id : Uuid) (r : Revision) : Option World :=
  if (w.revisionAt r.taskId r.revisionNumber).isSome then none
  else if ¬(r.steps.map PlanStep.sequence).Nodup then none
  else (w.revisions.insert id r).map fun revisions =>
    { w with revisions, log := w.log ++ [.persisted id r] }

/-- The plan row of the next revision. -/
def nextPlan (op : Persist) : Option PlanRow → PlanRow
  | none => ⟨op.newPlanId, 1⟩
  | some p => { p with currentRevision := p.currentRevision + 1 }

/-- The next revision. -/
def nextRevision (D : Deployment) (op : Persist) (p : PlanRow)
    (steps : List PlanStep) : Revision where
  taskId := op.taskId
  planId := p.id
  revisionNumber := p.currentRevision
  publicPayload := op.plan
  publicPayloadHash := D.payloadHash op.plan
  compiledBundleId := op.compiledBundleId
  registrySnapshotHash := op.registrySnapshotHash
  feedback := op.feedback
  steps

/-- What the writes leave. -/
def written (D : Deployment) (op : Persist) (plan : Option PlanRow) (steps : List PlanStep)
    (w : World) : Option World :=
  let p := nextPlan op plan
  let w' := match plan with
    | none => insertPlan w op.taskId p
    | some _ => some (updatePlan w op.taskId p)
  w'.bind fun w => insertRevision w op.newRevisionId (nextRevision D op p steps)

/-- The writes of a new revision. -/
def store (D : Deployment) (op : Persist) (plan : Option PlanRow) : Transaction :=
  match planSteps op.plan op.compiled with
  | .error e => raise e
  | .ok steps => .commit (written D op plan steps)
      (.ok ((nextRevision D op (nextPlan op plan) steps).persistedPlan op.newRevisionId))
        (raise .other)

/-- The revision and its Step rows are what the call asks for. Both lists of Steps are sorted by the
source; equal sorted lists are permutations of one another. -/
def SameInput (D : Deployment) (op : Persist) (r : Revision) (steps : List PlanStep) : Prop :=
  r.publicPayloadHash = D.payloadHash op.plan ∧ r.registrySnapshotHash = op.registrySnapshotHash ∧
    r.feedback = op.feedback ∧
    (steps.map PlanStep.compiledIdentity).Perm
      (op.compiled.map fun c => (c.1.sequence, c.1.sourceSha256, c.2))

instance (D : Deployment) (op : Persist) (r : Revision) (steps : List PlanStep) :
    Decidable (SameInput D op r steps) :=
  inferInstanceAs (Decidable (_ ∧ _))

/-- The current revision of a plan; a Task without one has none. -/
def current (plan : Option PlanRow) : ℕ := plan.elim 0 PlanRow.currentRevision

/-- `_existing_revision`, and what the caller does with its result. -/
def checked (D : Deployment) (op : Persist) (plan : Option PlanRow) : Option (Uuid × Revision) →
    Transaction
  | none =>
    if op.expectedRevisionNumber ≠ current plan + 1 then
      raise (.valueError "Plan revision must advance exactly once")
    else store D op plan
  | some (revisionId, r) => .select fun w =>
    if SameInput D op r (stepsOf w revisionId) then .ret (.ok (r.persistedPlan revisionId))
    else raise (.valueError "Plan revision was reused with different input")

/-- The transaction from the lock of the plan on. -/
def forPlan (D : Deployment) (op : Persist) : Option PlanRow → Transaction
  | none => checked D op none none
  | some p => .select fun w =>
    checked D op (some p) (w.revisionAt op.taskId op.expectedRevisionNumber)

/-- The transaction from the lock of the Task on. -/
def forTask (D : Deployment) (op : Persist) : Option TaskRow → Transaction
  | none => raise (.lookupError "Unknown plan Task")
  | some _ => lockPlan op.taskId (forPlan D op)

/-- `PlanRepository.persist`. -/
def persist (D : Deployment) (op : Persist) : Transaction := lockTask op.taskId (forTask D op)

/-- The calls of a service: any of them, at any time. -/
def workload (D : Deployment) : Workload World RowKey Row Persist Result where
  row := row
  program := persist D
  admits _ _ := true

end ExAgent.Plans
