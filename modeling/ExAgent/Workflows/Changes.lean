import ExAgent.Workflows.Lifecycle

/-!
# What a commit does

Every commit of the two repositories is one of the changes of `Change`: the writes of its operation,
made with the locks that the operation takes and from the rows that it read under them. The second
part says what the writes do to each table, the third that every transaction of the repositories,
run statement by statement among any others, commits nothing else.
-/

namespace ExAgent.Workflows

open Lib ExAgent.Graph
open WorkflowLifecycleRepository WorkflowPromotionRepository

/-- What a lifecycle transaction holds and knows once it has its workflow: the key is free. -/
structure Locked (c : LifecycleCall) (workflow : WorkflowRow) (held : List RowKey)
    (db : Db) : Prop where
  key : .advisory (idempotencyLock c.idempotencyKey) ∈ held
  free : db.actions.get c.idempotencyKey = none
  row : .workflow c.workflowId ∈ held
  workflow : db.workflows.get c.workflowId = some workflow

/-- The rows that `_deactivate_versions` has taken are the versions of the workflow. -/
structure Deactivates (workflowId : Uuid) (taken : List Uuid) (held : List RowKey) (db : Db) :
    Prop where
  mem : ∀ id, id ∈ taken ↔ ∃ v, db.versions.get id = some v ∧ v.workflowId = workflowId
  held : ∀ id ∈ taken, .version id ∈ held

/-- The commits. -/
inductive Change (S : Settings) : Op → List RowKey → Result → Db → Db → Prop
  | created {c : LifecycleCall} {new : NewVersion} {workflow : WorkflowRow} {steps : List StepRow}
      {held : List RowKey} {db db' : Db} (hlocked : Locked c workflow held db)
      (hwrite : created S c new workflow steps db = some db') :
    Change S (.createVersion c new) held
      (.ok (.action (versionResult c.workflowId workflow new.id (pendingVersion S c new workflow)
        .versionCreated))) db db'
  | approved {c : LifecycleCall} {versionId : Uuid} {reason : Option String}
      {workflow : WorkflowRow} {version : VersionRow} {taken : List Uuid} {held : List RowKey}
      {db db' : Db} (hlocked : Locked c workflow held db)
      (hversion : db.versions.get versionId = some version)
      (hof : version.workflowId = c.workflowId)
      (hpending : version.reviewStatus = .pendingReview)
      (htaken : Deactivates c.workflowId taken held db)
      (hwrite : approved c versionId reason workflow version taken db = some db') :
    Change S (.reviewVersion c versionId .approve reason) held
      (.ok (.action (versionResult c.workflowId workflow versionId
        (approvedObject c reason version).current .versionApproved))) db db'
  | rejected {c : LifecycleCall} {versionId : Uuid} {reason : Option String}
      {workflow : WorkflowRow} {version : VersionRow} {held : List RowKey} {db db' : Db}
      (hlocked : Locked c workflow held db)
      (hversion : db.versions.get versionId = some version)
      (hof : version.workflowId = c.workflowId)
      (hpending : version.reviewStatus = .pendingReview) (hheld : .version versionId ∈ held)
      (hwrite : rejected c versionId reason workflow version db = some db') :
    Change S (.reviewVersion c versionId .reject reason) held
      (.ok (.action (versionResult c.workflowId workflow versionId
        (reviewed c .reject reason version) .versionRejected))) db db'
  | activated {c : LifecycleCall} {versionId : Uuid} {reason : Option String}
      {workflow : WorkflowRow} {version : VersionRow} {taken : List Uuid} {held : List RowKey}
      {db db' : Db} (hlocked : Locked c workflow held db)
      (hversion : db.versions.get versionId = some version)
      (hof : version.workflowId = c.workflowId)
      (happroved : version.reviewStatus = .approved)
      (htaken : Deactivates c.workflowId taken held db)
      (hwrite : switched c versionId reason workflow version taken db = some db') :
    Change S (.activateVersion c versionId reason) held
      (.ok (.action (versionResult c.workflowId workflow versionId
        (activatedObject c version).current .versionActivated))) db db'
  | restated {c : LifecycleCall} {status : WorkflowStatus} {reason : Option String}
      {workflow : WorkflowRow} {held : List RowKey} {db db' : Db}
      (hlocked : Locked c workflow held db) (hwrite : restated c status reason db = some db') :
    Change S (.updateStatus c status reason) held (.ok (.action (statusResult c status))) db db'
  | promoted {p : PromoteCall} {new : NewVersion} {htask : new.source.taskId = p.taskId}
      {steps : List StepRow} {held : List RowKey} {db db' : Db}
      (hprepared : p.prepared = .ok ⟨new, htask⟩)
      (hwrite : promoted S p new steps db = some db') :
    Change S (.promote p) held (.ok (.promotion (promotedResult S p new))) db db'

/-! ## The writes, table by table -/

section Writes

variable {S : Settings} {db db' : Db}

/-- The action that a lifecycle call adds. -/
def LifecycleCall.actionRow (c : LifecycleCall) (result : LifecycleResult)
    (reason : Option String) :
    ActionRow where
  workflowId := result.workflowId
  workflowVersionId := result.workflowVersionId
  actorUserId := c.actorUserId
  action := result.action
  requestHash := c.requestHash
  reason
  policyVersion := c.policyVersion
  resultPayload := result

/-- A write adds an action under the key of its call, where there was none, and no promotion. -/
structure Acts (c : LifecycleCall) (result : LifecycleResult) (reason : Option String)
    (db db' : Db) : Prop where
  free : db.actions.get c.idempotencyKey = none
  actions : ∀ k, db'.actions.get k =
    if k = c.idempotencyKey then some (c.actionRow result reason) else db.actions.get k
  promotions : db'.promotions = db.promotions

/-- A recorded action changes the actions only. -/
theorem addAction_spec {c : LifecycleCall} {result : LifecycleResult} {reason : Option String}
    (h : addAction c result reason db = some db') :
    Acts c result reason db db' ∧ db'.versions = db.versions ∧ db'.workflows = db.workflows := by
  obtain ⟨hnone, hget, heq⟩ := Db.insertAction_spec h
  rw [heq]
  exact ⟨⟨hnone, fun k => hget k, rfl⟩, rfl, rfl⟩

/-- A created version is new and pending, and the Workflow's number moves on. -/
theorem created_spec {c : LifecycleCall} {new : NewVersion} {workflow : WorkflowRow}
    {steps : List StepRow} (h : created S c new workflow steps db = some db') :
    Acts c (versionResult c.workflowId workflow new.id (pendingVersion S c new workflow)
        .versionCreated) none db db' ∧
      db.versions.get new.id = none ∧
      (∀ k, db'.versions.get k =
        if k = new.id then some (pendingVersion S c new workflow) else db.versions.get k) ∧
      db'.workflows = db.workflows.modifyAt c.workflowId fun w =>
        { w with latestVersion := workflow.latestVersion + 1, updatedBy := c.actorUserId } := by
  obtain ⟨db₁, h₁, h⟩ := Option.bind_eq_some_iff.mp h
  obtain ⟨db₂, h₂, h⟩ := Option.bind_eq_some_iff.mp h
  obtain rfl := Option.some.inj h
  obtain ⟨hnone, -, hget, heq⟩ := Db.insertVersion_spec h₁
  obtain ⟨hacts, hversions, hworkflows⟩ := addAction_spec h₂
  rw [heq] at hacts hworkflows
  refine ⟨⟨hacts.free, hacts.actions, hacts.promotions⟩, hnone, fun k => ?_, hworkflows⟩
  rw [← hget k]
  exact congrArg (fun t => Table.get t k) hversions

/-- An `UPDATE` of the version that was read writes the object of the session, when the session
knows what is stored. -/
theorem get_updateVersion {id : Uuid} {o : VersionObject}
    (h : db.updateVersion id o.changes = some db') (hstored : db.versions.get id = some o.stored)
    (hw : o.current.workflowId = o.stored.workflowId) (hn : o.current.version = o.stored.version)
    (hc : o.current.content = o.stored.content) :
    (∀ k, db'.versions.get k = if k = id then some o.current else db.versions.get k) ∧
      db' = { db with versions := db'.versions } := by
  have heq := Db.updateVersion_spec h
  refine ⟨fun k => ?_, by rw [heq]⟩
  rw [heq, Table.get_modifyAt]
  split
  · rename_i hk
    rw [hk, hstored, Option.map_some, o.changes_stored hw hn hc]
  · rfl

/-- An approved version is the active one, and the others of the Workflow are not. -/
theorem approved_spec {c : LifecycleCall} {versionId : Uuid} {reason : Option String}
    {workflow : WorkflowRow} {version : VersionRow} {taken : List Uuid}
    (h : approved c versionId reason workflow version taken db = some db')
    (hversion : db.versions.get versionId = some version) (hmem : versionId ∈ taken) :
    Acts c (versionResult c.workflowId workflow versionId
        (approvedObject c reason version).current .versionApproved) reason db db' ∧
      (∀ k, db'.versions.get k =
        if k = versionId then some (approvedObject c reason version).current
        else if k ∈ taken then (db.versions.get k).map (deactivated c.actorUserId)
        else db.versions.get k) ∧
      db'.workflows =
        db.workflows.modifyAt c.workflowId fun w => { w with updatedBy := c.actorUserId } := by
  obtain ⟨db₁, h₁, h⟩ := Option.bind_eq_some_iff.mp h
  obtain ⟨db₂, h₂, h⟩ := Option.bind_eq_some_iff.mp h
  obtain ⟨hget₁, heq₁⟩ := get_updateVersion h₁ hversion rfl rfl rfl
  -- The `UPDATE` meets the row as the flush left it, and the object like the row.
  have hstored : (db₁.deactivate taken c.actorUserId).versions.get versionId =
      some (approvedObject c reason version).stored := by
    simp only [Db.deactivate, Table.get_modify, hget₁, if_pos, Option.map_some, hmem]
    rfl
  obtain ⟨hget₂, heq₂⟩ := get_updateVersion h₂ hstored rfl rfl rfl
  obtain ⟨hacts, hversions, hworkflows⟩ := addAction_spec h
  rw [heq₂, Db.deactivate, heq₁] at hacts hworkflows
  refine ⟨⟨hacts.free, hacts.actions, hacts.promotions⟩, fun k => ?_, hworkflows⟩
  rw [hversions]
  show db₂.versions.get k = _
  rw [hget₂]
  split
  · rfl
  · rename_i hk
    simp only [Db.deactivate, Table.get_modify, hget₁, if_neg hk]
    split
    · rfl
    · exact Option.map_id'

/-- A rejected version is the only row that changes. -/
theorem rejected_spec {c : LifecycleCall} {versionId : Uuid} {reason : Option String}
    {workflow : WorkflowRow} {version : VersionRow}
    (h : rejected c versionId reason workflow version db = some db')
    (hversion : db.versions.get versionId = some version) :
    Acts c (versionResult c.workflowId workflow versionId (reviewed c .reject reason version)
        .versionRejected) reason db db' ∧
      (∀ k, db'.versions.get k =
        if k = versionId then some (reviewed c .reject reason version) else db.versions.get k) ∧
      db'.workflows = db.workflows := by
  obtain ⟨db₁, h₁, h⟩ := Option.bind_eq_some_iff.mp h
  obtain ⟨hget₁, heq₁⟩ := get_updateVersion h₁ hversion rfl rfl rfl
  obtain ⟨hacts, hversions, hworkflows⟩ := addAction_spec h
  rw [heq₁] at hacts hworkflows
  refine ⟨⟨hacts.free, hacts.actions, hacts.promotions⟩, fun k => ?_, hworkflows⟩
  rw [hversions]
  exact hget₁ k

/-- A version that is switched to is the active one, and the others of the Workflow are not. -/
theorem switched_spec {c : LifecycleCall} {versionId : Uuid} {reason : Option String}
    {workflow : WorkflowRow} {version : VersionRow} {taken : List Uuid}
    (h : switched c versionId reason workflow version taken db = some db')
    (hversion : db.versions.get versionId = some version) (hmem : versionId ∈ taken) :
    Acts c (versionResult c.workflowId workflow versionId
        (activatedObject c version).current .versionActivated) reason db db' ∧
      (∀ k, db'.versions.get k =
        if k = versionId then some (activatedObject c version).current
        else if k ∈ taken then (db.versions.get k).map (deactivated c.actorUserId)
        else db.versions.get k) ∧
      db'.workflows =
        db.workflows.modifyAt c.workflowId fun w => { w with updatedBy := c.actorUserId } := by
  obtain ⟨db₂, h₂, h⟩ := Option.bind_eq_some_iff.mp h
  have hstored : (db.deactivate taken c.actorUserId).versions.get versionId =
      some (activatedObject c version).stored := by
    simp only [Db.deactivate, Table.get_modify, hversion, Option.map_some, if_pos hmem]
    rfl
  obtain ⟨hget₂, heq₂⟩ := get_updateVersion h₂ hstored rfl rfl rfl
  obtain ⟨hacts, hversions, hworkflows⟩ := addAction_spec h
  rw [heq₂, Db.deactivate] at hacts hworkflows
  refine ⟨⟨hacts.free, hacts.actions, hacts.promotions⟩, fun k => ?_, hworkflows⟩
  rw [hversions]
  show db₂.versions.get k = _
  rw [hget₂]
  split
  · rfl
  · simp only [Db.deactivate, Table.get_modify]
    split
    · rfl
    · exact Option.map_id'

/-- A restated Workflow has the new status, and its versions stay. -/
theorem restated_spec {c : LifecycleCall} {status : WorkflowStatus} {reason : Option String}
    (h : restated c status reason db = some db') :
    Acts c (statusResult c status) reason db db' ∧ db'.versions = db.versions ∧
      db'.workflows = db.workflows.modifyAt c.workflowId fun w =>
        { w with status, updatedBy := c.actorUserId } := by
  obtain ⟨hacts, hversions, hworkflows⟩ := addAction_spec h
  exact ⟨⟨hacts.free, hacts.actions, hacts.promotions⟩, hversions, hworkflows⟩

/-- The row that a promotion adds. -/
def PromoteCall.promotionRow (p : PromoteCall) (new : NewVersion) : PromotionRow where
  taskId := new.source.taskId
  actorUserId := p.actorUserId
  requestHash := p.requestHash
  workflowId := p.workflowId
  workflowVersionId := new.id
  policyVersion := p.policyVersion

/-- A promotion adds the Workflow, its first version and the promotion. -/
theorem promoted_spec {p : PromoteCall} {new : NewVersion} {steps : List StepRow}
    (h : promoted S p new steps db = some db') :
    db.workflows.get p.workflowId = none ∧ db.versions.get new.id = none ∧
      db.promotions.get p.idempotencyKey = none ∧
      (∀ k, db'.workflows.get k =
        if k = p.workflowId then some (newWorkflow p new) else db.workflows.get k) ∧
      (∀ k, db'.versions.get k =
        if k = new.id then some (firstVersion S p new) else db.versions.get k) ∧
      (∀ k, db'.promotions.get k =
        if k = p.idempotencyKey then some (p.promotionRow new) else db.promotions.get k) ∧
      db'.actions = db.actions := by
  obtain ⟨db₁, h₁, h⟩ := Option.bind_eq_some_iff.mp h
  obtain ⟨db₂, h₂, h⟩ := Option.bind_eq_some_iff.mp h
  obtain ⟨db₃, h₃, h⟩ := Option.bind_eq_some_iff.mp h
  obtain rfl := Option.some.inj h
  obtain ⟨hworkflow, hget₁, heq₁⟩ := Db.insertWorkflow_spec h₁
  obtain ⟨hversion, -, hget₂, heq₂⟩ := Db.insertVersion_spec h₂
  obtain ⟨hpromotion, hget₃, heq₃⟩ := Db.insertPromotion_spec h₃
  rw [heq₁] at hversion hget₂ heq₂
  rw [Db.addSteps, heq₂] at hpromotion hget₃ heq₃
  rw [heq₃]
  exact ⟨hworkflow, hversion, hpromotion, hget₁, hget₂, hget₃, rfl⟩

end Writes

/-! ## What a change leaves alone -/

section Frame

variable {S : Settings} {op : Op} {held : List RowKey} {result : Result} {db db' : Db}

/-- The version that an approval writes. -/
theorem Change.taken {workflowId versionId : Uuid} {version : VersionRow} {taken : List Uuid}
    (htaken : Deactivates workflowId taken held db)
    (hversion : db.versions.get versionId = some version) (hof : version.workflowId = workflowId) :
    versionId ∈ taken := (htaken.mem _).mpr ⟨version, hversion, hof⟩

/-- A commit adds no action, or one under a key that was free and locked. -/
theorem Change.actions (h : Change S op held result db db') :
    db'.actions = db.actions ∨ ∃ c workflow a reason, Locked c workflow held db ∧
      result = .ok (.action a) ∧ a.applied = true ∧ Acts c a reason db db' := by
  cases h with
  | created hlocked hwrite =>
    exact .inr ⟨_, _, _, _, hlocked, rfl, rfl, (created_spec hwrite).1⟩
  | approved hlocked hversion hof hpending htaken hwrite =>
    exact .inr ⟨_, _, _, _, hlocked, rfl, rfl,
      (approved_spec hwrite hversion (Change.taken htaken hversion hof)).1⟩
  | rejected hlocked hversion hof hpending hheld hwrite =>
    exact .inr ⟨_, _, _, _, hlocked, rfl, rfl, (rejected_spec hwrite hversion).1⟩
  | activated hlocked hversion hof happroved htaken hwrite =>
    exact .inr ⟨_, _, _, _, hlocked, rfl, rfl,
      (switched_spec hwrite hversion (Change.taken htaken hversion hof)).1⟩
  | restated hlocked hwrite =>
    exact .inr ⟨_, _, _, _, hlocked, rfl, rfl, (restated_spec hwrite).1⟩
  | promoted hprepared hwrite =>
    obtain ⟨-, -, -, -, -, -, hactions⟩ := promoted_spec hwrite
    exact .inl hactions

/-- A commit changes one workflow, which is locked, or adds one. -/
theorem Change.workflows (h : Change S op held result db db') :
    (∃ id f, .workflow id ∈ held ∧ db'.workflows = db.workflows.modifyAt id f) ∨
      db'.workflows = db.workflows ∨
      ∃ id row, db.workflows.get id = none ∧
        ∀ k, db'.workflows.get k = if k = id then some row else db.workflows.get k := by
  cases h with
  | created hlocked hwrite =>
    obtain ⟨-, -, -, hworkflows⟩ := created_spec hwrite
    exact .inl ⟨_, _, hlocked.row, hworkflows⟩
  | approved hlocked hversion hof hpending htaken hwrite =>
    obtain ⟨-, -, hworkflows⟩ :=
      approved_spec hwrite hversion (Change.taken htaken hversion hof)
    exact .inl ⟨_, _, hlocked.row, hworkflows⟩
  | rejected hlocked hversion hof hpending hheld hwrite =>
    obtain ⟨-, -, hworkflows⟩ := rejected_spec hwrite hversion
    exact .inr (.inl hworkflows)
  | activated hlocked hversion hof happroved htaken hwrite =>
    obtain ⟨-, -, hworkflows⟩ :=
      switched_spec hwrite hversion (Change.taken htaken hversion hof)
    exact .inl ⟨_, _, hlocked.row, hworkflows⟩
  | restated hlocked hwrite =>
    obtain ⟨-, -, hworkflows⟩ := restated_spec hwrite
    exact .inl ⟨_, _, hlocked.row, hworkflows⟩
  | promoted hprepared hwrite =>
    obtain ⟨hfree, -, -, hworkflows, -⟩ := promoted_spec hwrite
    exact .inr (.inr ⟨_, _, hfree, hworkflows⟩)

/-- A version that a commit adds or changes: it is locked when it was there, and its workflow is
locked or new. -/
structure Touched (held : List RowKey) (db db' : Db) (id workflowId : Uuid) : Prop where
  before : ∀ v, db.versions.get id = some v → v.workflowId = workflowId ∧ .version id ∈ held
  after : ∀ v, db'.versions.get id = some v → v.workflowId = workflowId
  locked : .workflow workflowId ∈ held ∨ db.workflows.get workflowId = none

/-- The rows of a switch: the version that becomes active, and the others of the workflow. -/
theorem Touched.switched {workflowId versionId id : Uuid} {version row : VersionRow}
    {taken : List Uuid} {actorUserId : String} (hworkflow : .workflow workflowId ∈ held)
    (htaken : Deactivates workflowId taken held db)
    (hversion : db.versions.get versionId = some version) (hof : version.workflowId = workflowId)
    (hget : db'.versions.get id = if id = versionId then some row
      else if id ∈ taken then (db.versions.get id).map (deactivated actorUserId)
      else db.versions.get id)
    (hrow : row.workflowId = workflowId) :
    db'.versions.get id = db.versions.get id ∨ Touched held db db' id workflowId := by
  by_cases hin : id ∈ taken
  · obtain ⟨r, hr, hrof⟩ := (htaken.mem id).mp hin
    refine .inr ⟨fun v hv => ?_, fun v hv => ?_, .inl hworkflow⟩
    · obtain rfl := Option.some.inj (hr.symm.trans hv)
      exact ⟨hrof, htaken.held id hin⟩
    · rw [hget, if_pos hin, hr] at hv
      split at hv
      · obtain rfl := Option.some.inj hv
        exact hrow
      · obtain rfl := Option.some.inj hv
        exact hrof
  · have hne : id ≠ versionId := fun heq => hin (heq ▸ Change.taken htaken hversion hof)
    rw [hget, if_neg hne, if_neg hin]
    exact .inl rfl

/-- A commit leaves a version as it is, or touches it. -/
theorem Change.version_row (h : Change S op held result db db') (id : Uuid) :
    db'.versions.get id = db.versions.get id ∨ ∃ workflowId, Touched held db db' id workflowId := by
  -- A single row that is written.
  have hput : ∀ {workflowId i : Uuid} {row : VersionRow},
      (db'.versions.get id = if id = i then some row else db.versions.get id) →
      row.workflowId = workflowId →
      (∀ v, db.versions.get i = some v → v.workflowId = workflowId ∧ .version i ∈ held) →
      (.workflow workflowId ∈ held ∨ db.workflows.get workflowId = none) →
      db'.versions.get id = db.versions.get id ∨
        ∃ workflowId, Touched held db db' id workflowId := by
    intro workflowId i row hget hrow hbefore hlocked
    by_cases hi : id = i
    · subst hi
      rw [if_pos rfl] at hget
      refine .inr ⟨workflowId, hbefore, fun v hv => ?_, hlocked⟩
      obtain rfl := Option.some.inj (hget.symm.trans hv)
      exact hrow
    · rw [hget, if_neg hi]
      exact .inl rfl
  cases h with
  | created hlocked hwrite =>
    obtain ⟨-, hnone, hversions, -⟩ := created_spec hwrite
    exact hput (hversions id) rfl (fun v hv => by simp [hnone] at hv) (.inl hlocked.row)
  | approved hlocked hversion hof hpending htaken hwrite =>
    obtain ⟨-, hversions, -⟩ :=
      approved_spec hwrite hversion (Change.taken htaken hversion hof)
    exact (Touched.switched hlocked.row htaken hversion hof (hversions id) hof).imp_right
      fun h => ⟨_, h⟩
  | rejected hlocked hversion hof hpending hheld hwrite =>
    obtain ⟨-, hversions, -⟩ := rejected_spec hwrite hversion
    refine hput (hversions id) hof (fun v hv => ?_) (.inl hlocked.row)
    obtain rfl := Option.some.inj (hversion.symm.trans hv)
    exact ⟨hof, hheld⟩
  | activated hlocked hversion hof happroved htaken hwrite =>
    obtain ⟨-, hversions, -⟩ :=
      switched_spec hwrite hversion (Change.taken htaken hversion hof)
    exact (Touched.switched hlocked.row htaken hversion hof (hversions id) hof).imp_right
      fun h => ⟨_, h⟩
  | restated hlocked hwrite =>
    obtain ⟨-, hversions, -⟩ := restated_spec hwrite
    exact .inl (congrArg (fun t => Table.get t id) hversions)
  | promoted hprepared hwrite =>
    obtain ⟨hfree, hnone, -, -, hversions, -⟩ := promoted_spec hwrite
    exact hput (hversions id) rfl (fun v hv => by simp [hnone] at hv) (.inr hfree)

/-- The commits change only rows they hold, and add rows. -/
theorem Change.frames (h : Change S op held result db db') {k : RowKey} (hk : k ∉ held) {r : Row}
    (hr : db.row k = some r) : db'.row k = some r := by
  cases k with
  | advisory n => exact hr
  | workflow id =>
    rcases h.workflows with ⟨i, f, hi, heq⟩ | heq | ⟨i, row, hnone, hget⟩
    · have hne : id ≠ i := fun h => hk (h ▸ hi)
      simpa [Db.row, heq, hne] using hr
    · simpa [Db.row, heq] using hr
    · have hne : id ≠ i := by
        rintro rfl
        simp [Db.row, hnone] at hr
      simpa [Db.row, hget, hne] using hr
  | version id =>
    rcases h.version_row id with heq | ⟨workflowId, htouched⟩
    · simpa [Db.row, heq] using hr
    · obtain ⟨v, hv, -⟩ := Option.map_eq_some_iff.mp hr
      exact absurd (htouched.before v hv).2 hk
  | action key =>
    rcases h.actions with heq | ⟨c, workflow, a, reason, -, -, -, hact⟩
    · simpa [Db.row, heq] using hr
    · have hne : key ≠ c.idempotencyKey := by
        rintro rfl
        simp [Db.row, hact.free] at hr
      simpa [Db.row, hact.actions, hne] using hr

/-- A key gets an action only under its advisory lock. -/
theorem Change.free (h : Change S op held result db db') {key : String}
    (hheld : .advisory (idempotencyLock key) ∉ held) (hfree : db.actions.get key = none) :
    db'.actions.get key = none := by
  rcases h.actions with heq | ⟨c, workflow, a, reason, hlocked, -, -, hact⟩
  · rw [heq, hfree]
  · have hne : key ≠ c.idempotencyKey := by
      rintro rfl
      exact hheld hlocked.key
    rw [hact.actions, if_neg hne, hfree]

/-- The versions of a workflow change only under the lock of the workflow. -/
theorem Change.versions_of (h : Change S op held result db db') {workflowId : Uuid}
    {workflow : WorkflowRow} (hworkflow : db.workflows.get workflowId = some workflow)
    (hheld : .workflow workflowId ∉ held) {id : Uuid} {v : VersionRow}
    (hv : v.workflowId = workflowId) :
    db'.versions.get id = some v ↔ db.versions.get id = some v := by
  rcases h.version_row id with heq | ⟨other, htouched⟩
  · rw [heq]
  · have hne : other ≠ workflowId := by
      rintro rfl
      rcases htouched.locked with hin | hnone
      · exact hheld hin
      · exact absurd (hworkflow.symm.trans hnone) (by simp)
    exact iff_of_false (fun h => hne ((htouched.after v h).symm.trans hv))
      fun h => hne ((htouched.before v h).1.symm.trans hv)

end Frame

end ExAgent.Workflows
