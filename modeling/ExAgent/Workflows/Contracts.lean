import ExAgent.Workflows.Changes

/-!
# The transactions keep their contracts

Every call of the two repositories, run statement by statement among any others, commits nothing but
what `Change` says of it. The advisory lock keeps the key free and the lock of the workflow keeps
its versions as they were read, which the transaction itself never locks before it writes them.
-/

namespace ExAgent.Workflows

open Lib ExAgent.Graph
open WorkflowLifecycleRepository WorkflowPromotionRepository

section Rules

variable {S : Settings} {op : Op} {held : List RowKey} {P : Db → Prop}

/-- What the commits of others can do. -/
abbrev Rely (S : Settings) : List RowKey → Db → Db → Prop := relyOn (Change S)

/-- The contract of a transaction of the call `op`. -/
abbrev Keeps (S : Settings) (op : Op) (t : Transaction) (held : List RowKey)
    (P : Db → Prop) : Prop :=
  t.Safe Db.row (Rely S) (Change S op) held P

/-- An assertion that the commits of others keep. -/
abbrev Kept (S : Settings) (held : List RowKey) (P : Db → Prop) : Prop :=
  Txn.Stable (Rely S) held P

/-- Other transactions leave the rows a lock covers. -/
theorem frames (S : Settings) : Txn.Frames Db.row (Rely S) := by
  rintro held db db' ⟨op, result, h⟩ k hk r hr
  exact h.frames hk hr

/-- A key stays free while its advisory lock is held. -/
theorem kept_free {key : String} (hheld : .advisory (idempotencyLock key) ∈ held) :
    Kept S held fun db => db.actions.get key = none := by
  rintro db db' held' hfree hd ⟨op, result, h⟩
  exact h.free (hd _ hheld) hfree

/-- The versions of a locked workflow stay as they are. -/
theorem kept_version {workflowId id : Uuid} {workflow : WorkflowRow} {v : VersionRow}
    (hheld : .workflow workflowId ∈ held) (hv : v.workflowId = workflowId) :
    Kept S held fun db =>
      db.workflows.get workflowId = some workflow ∧ db.versions.get id = some v := by
  rintro db db' held' ⟨hworkflow, hversion⟩ hd ⟨op, result, h⟩
  have hrow : db'.row (.workflow workflowId) = some (.workflow workflow) :=
    h.frames (hd _ hheld) (by simp [Db.row, hworkflow])
  refine ⟨by simpa [Db.row] using hrow, ?_⟩
  exact (h.versions_of hworkflow (hd _ hheld) hv).mpr hversion

/-- What a lifecycle transaction knows under its locks. -/
theorem kept_locked {c : LifecycleCall} {workflow : WorkflowRow}
    (hkey : .advisory (idempotencyLock c.idempotencyKey) ∈ held)
    (hrow : .workflow c.workflowId ∈ held) : Kept S held (Locked c workflow held) := by
  rintro db db' held' h hd hrely
  refine ⟨hkey, kept_free hkey db db' held' h.free hd hrely, hrow, ?_⟩
  have :=
    frames S held' db db' hrely _ (hd _ hrow) (.workflow workflow) (by simp [Db.row, h.workflow])
  simpa [Db.row] using this

/-- And of a version that it has read. -/
theorem kept_lockedVersion {c : LifecycleCall} {workflow : WorkflowRow} {versionId : Uuid}
    {version : VersionRow} (hof : version.workflowId = c.workflowId)
    (hkey : .advisory (idempotencyLock c.idempotencyKey) ∈ held)
    (hrow : .workflow c.workflowId ∈ held) :
    Kept S held fun db => Locked c workflow held db ∧ db.versions.get versionId = some version :=
  fun db db' held' hdb hd hrely =>
    ⟨kept_locked hkey hrow db db' held' hdb.1 hd hrely,
      (kept_version hrow hof db db' held' ⟨hdb.1.workflow, hdb.2⟩ hd hrely).2⟩

/-- The lock of an action; of a key without one the caller may know more. -/
theorem Keeps.lockAction {key : String} {next : Option ActionRow → Transaction} {Q : Db → Prop}
    (hP : Kept S held P) (hQ : Kept S held Q) (hPQ : ∀ db, P db → db.actions.get key = none → Q db)
    (hsome : ∀ row, Keeps S op (next (some row)) (.action key :: held) fun db =>
      P db ∧ db.actions.get key = some row)
    (hnone : Keeps S op (next none) held Q) : Keeps S op (lockAction key next) held P :=
  Txn.Safe.lockRow (f := .action) (frames S) (fun _ => rfl) (fun _ => rfl) hP hQ hPQ
    (fun row _ => hsome row) hnone

/-- A locked Workflow is kept, or is not there. -/
theorem Keeps.lockWorkflow {id : Uuid} {next : Option WorkflowRow → Transaction}
    (hP : Kept S held P)
    (hsome : ∀ row, Keeps S op (next (some row)) (.workflow id :: held) fun db =>
      P db ∧ db.workflows.get id = some row)
    (hnone : Keeps S op (next none) held P) : Keeps S op (lockWorkflow id next) held P :=
  Txn.Safe.lockRow (f := .workflow) (frames S) (fun _ => rfl) (fun _ => rfl) hP hP
    (fun _ hdb _ => hdb) (fun row _ => hsome row) hnone

/-- A call is answered by the action under its key, or goes on. -/
theorem Keeps.answered {c : LifecycleCall} (action : LifecycleAction) {next : Transaction}
    {Q : Db → Prop} (hP : Kept S held P) (hQ : Kept S held Q)
    (hPQ : ∀ db, P db → db.actions.get c.idempotencyKey = none → Q db)
    (h : Keeps S op next held Q) :
    Keeps S op (Workflows.lockAction c.idempotencyKey fun row =>
      match row with
      | some row => .ret (existingResult c action row)
      | none => next) held P :=
  Keeps.lockAction hP hQ hPQ (fun _ => trivial) h

/-- `_locked_existing`: behind it the key is free. -/
theorem Keeps.lockedExisting {c : LifecycleCall} {action : LifecycleAction} {next : Transaction}
    (h : Keeps S op next [.advisory (idempotencyLock c.idempotencyKey)]
      fun db => db.actions.get c.idempotencyKey = none) :
    Keeps S op (lockedExisting c action next) [] fun _ => True := by
  have hfree := @kept_free S [.advisory (idempotencyLock c.idempotencyKey)] c.idempotencyKey
    List.mem_cons_self
  -- An advisory lock is never missing, a key may be.
  refine Txn.Safe.lock_or (Q := fun _ => False) (frames S) Txn.Stable.true
    (fun _ _ _ hf => hf.elim) (fun db _ hnone => by simp [Db.row] at hnone) (fun _ => ?_)
    (Txn.Safe.of_false fun _ hf => hf)
  have haction := Keeps.answered action Txn.Stable.true hfree (fun _ _ hnone => hnone) h
  exact haction.weaken fun _ _ => trivial

/-- `_locked_workflow`: behind it the transaction has all its locks. -/
theorem Keeps.lockedWorkflow {c : LifecycleCall} {next : WorkflowRow → Transaction}
    (h : ∀ workflow, Keeps S op (next workflow)
      [.workflow c.workflowId, .advisory (idempotencyLock c.idempotencyKey)]
      (Locked c workflow [.workflow c.workflowId, .advisory (idempotencyLock c.idempotencyKey)])) :
    Keeps S op (Workflows.lockedWorkflow c.workflowId next)
      [.advisory (idempotencyLock c.idempotencyKey)]
      fun db => db.actions.get c.idempotencyKey = none := by
  refine Keeps.lockWorkflow (kept_free List.mem_cons_self) (fun workflow => ?_) trivial
  exact (h workflow).weaken fun db hdb =>
    ⟨List.mem_cons_of_mem _ List.mem_cons_self, hdb.1, List.mem_cons_self, hdb.2⟩

/-- `_workflow_version`: the version stays as it was read. -/
theorem Keeps.workflowVersion {c : LifecycleCall} {workflow : WorkflowRow} {versionId : Uuid}
    {next : VersionRow → Transaction}
    (hkey : .advisory (idempotencyLock c.idempotencyKey) ∈ held)
    (hrow : .workflow c.workflowId ∈ held)
    (h : ∀ version, version.workflowId = c.workflowId → Keeps S op (next version) held fun db =>
      Locked c workflow held db ∧ db.versions.get versionId = some version) :
    Keeps S op (Workflows.workflowVersion c.workflowId versionId next) held
      (Locked c workflow held) := by
  intro db hdb
  have hlocked : Kept S held (Locked c workflow held) := kept_locked hkey hrow
  have hraise : ∀ e, ∃ Q, Kept S held Q ∧ Q db ∧ Keeps S op (raise e) held Q := fun e =>
    ⟨_, hlocked, hdb, trivial⟩
  dsimp only
  split
  · rename_i version hversion
    split
    · rename_i hof
      exact ⟨fun db => Locked c workflow held db ∧ db.versions.get versionId = some version,
        kept_lockedVersion hof hkey hrow, ⟨hdb, hversion⟩, h version hof⟩
    · exact hraise _
  · exact hraise _

/-- The rows that the `UPDATE` of `_deactivate_versions` writes. -/
theorem meeting_version {db : Db} {workflowId : Uuid} {k : RowKey} :
    Txn.Meeting Db.row (isVersionOf workflowId) db k ↔
      ∃ id v, k = .version id ∧ db.versions.get id = some v ∧ v.workflowId = workflowId := by
  constructor
  · rintro ⟨r, hr, hm⟩
    cases r with
    | version v =>
      cases k with
      | version id =>
        exact ⟨id, v, rfl, by simpa [Db.row] using hr, by simpa [isVersionOf] using hm⟩
      | _ => simp [Db.row] at hr
    | _ => cases hm
  · rintro ⟨id, v, rfl, hv, hof⟩
    exact ⟨.version v, by simp [Db.row, hv], by simp [isVersionOf, hof]⟩

/-- The versions of a Workflow are the keys whose rows say so. -/
theorem mem_versionsOf {db : Db} {workflowId : Uuid} {k : RowKey} :
    k ∈ versionsOf db workflowId ↔ Txn.Meeting Db.row (isVersionOf workflowId) db k := by
  rw [meeting_version]
  simp only [versionsOf, List.mem_map, List.mem_filter, Prod.exists, decide_eq_true_eq]
  constructor
  · rintro ⟨id, v, ⟨he, hof⟩, rfl⟩
    exact ⟨id, v, rfl, Table.mem_entries_iff.mp he, hof⟩
  · rintro ⟨id, v, rfl, hv, hof⟩
    exact ⟨id, v, ⟨Table.mem_entries_iff.mpr hv, hof⟩, rfl⟩

/-- The IDs of keys of versions are those of the versions. -/
theorem mem_versionIds {keys : List RowKey} {id : Uuid} :
    id ∈ versionIds keys ↔ .version id ∈ keys := by
  unfold versionIds
  rw [List.mem_filterMap]
  constructor
  · rintro ⟨k, hk, hid⟩
    cases k with
    | version i =>
      obtain rfl := Option.some.inj hid
      exact hk
    | _ => cases hid
  · exact fun h => ⟨.version id, h, rfl⟩

/-- `_deactivate_versions`: the rows taken are the versions of the workflow. -/
theorem Keeps.deactivateVersions {c : LifecycleCall} {workflow : WorkflowRow} {versionId : Uuid}
    {version : VersionRow} {next : List Uuid → Transaction}
    (hof : version.workflowId = c.workflowId)
    (hkey : .advisory (idempotencyLock c.idempotencyKey) ∈ held)
    (hrow : .workflow c.workflowId ∈ held)
    (h : ∀ taken held', Keeps S op (next taken) held' fun db =>
      Locked c workflow held' db ∧ db.versions.get versionId = some version ∧
        Deactivates c.workflowId taken held' db) :
    Keeps S op (Workflows.deactivateVersions c.workflowId next) held fun db =>
      Locked c workflow held db ∧ db.versions.get versionId = some version := by
  refine Txn.Safe.matching (frames S) (kept_lockedVersion hof hkey hrow)
    (fun _ _ => mem_versionsOf) ?_ ?_
  · rintro s s' held' hs hd ⟨op', result, hchange⟩ k hk
    obtain ⟨id, v, rfl, hv, hvof⟩ := meeting_version.mp hk
    exact meeting_version.mpr ⟨id, v, rfl,
      (hchange.versions_of hs.1.workflow (hd _ hrow) hvof).mp hv, hvof⟩
  · intro taken held' hmore htaken _
    refine (h (versionIds taken) held').weaken ?_
    rintro db ⟨⟨hlocked, hv⟩, hmeet⟩
    refine ⟨⟨hmore _ hkey, hlocked.free, hmore _ hrow, hlocked.workflow⟩, hv, fun id => ?_,
      fun id hid => htaken _ (mem_versionIds.mp hid)⟩
    rw [mem_versionIds, hmeet, meeting_version]
    constructor
    · rintro ⟨i, v, hi, hv, hvof⟩
      obtain rfl := RowKey.version.inj hi
      exact ⟨v, hv, hvof⟩
    · rintro ⟨v, hv, hvof⟩
      exact ⟨id, v, rfl, hv, hvof⟩

end Rules

/-! ## The calls -/

section Calls

variable {S : Settings}

/-- The lookup of an action keeps its contract. -/
theorem keeps_existing (c : LifecycleCall) (action : LifecycleAction) :
    Keeps S (.existing c action) (existing c action) [] fun _ => True := by
  refine Txn.Safe.select Txn.Stable.true fun db _ => ?_
  split <;> trivial

/-- `create_version` keeps its contract. -/
theorem keeps_createVersion (c : LifecycleCall) (new : NewVersion) :
    Keeps S (.createVersion c new) (createVersion S c new) [] fun _ => True := by
  refine Keeps.lockedExisting (Keeps.lockedWorkflow fun workflow => ?_)
  refine Txn.Safe.select (kept_locked (List.mem_cons_of_mem _ List.mem_cons_self)
    List.mem_cons_self) fun db _ => ?_
  split
  · trivial
  · split
    · trivial
    · exact Txn.Safe.commit (fun db db' hlocked hw => .created hlocked hw) trivial

/-- `review_version` keeps its contract. -/
theorem keeps_reviewVersion (c : LifecycleCall) (versionId : Uuid) (decision : Decision)
    (reason : Option String) :
    Keeps S (.reviewVersion c versionId decision reason)
      (reviewVersion c versionId decision reason) [] fun _ => True := by
  refine Keeps.lockedExisting (Keeps.lockedWorkflow fun workflow => ?_)
  refine Keeps.workflowVersion (List.mem_cons_of_mem _ List.mem_cons_self) List.mem_cons_self
    fun version hof => ?_
  split
  · trivial
  rename_i hpending
  rw [not_not] at hpending
  -- The lock of the version is that of the `UPDATE` of the flush; the version is there.
  have hkept := @kept_lockedVersion S [.workflow c.workflowId,
    .advisory (idempotencyLock c.idempotencyKey)] c workflow versionId version hof
    (List.mem_cons_of_mem _ List.mem_cons_self) List.mem_cons_self
  refine Txn.Safe.lock_or (Q := fun _ => False) (frames S) hkept (fun _ _ _ hf => hf.elim)
    (fun db hdb hnone => by simp [Db.row, hdb.2] at hnone) (fun _ => ?_)
    (Txn.Safe.of_false fun _ hf => hf)
  have hmore : ∀ db, Locked c workflow [.workflow c.workflowId,
      .advisory (idempotencyLock c.idempotencyKey)] db → Locked c workflow [.version versionId,
        .workflow c.workflowId, .advisory (idempotencyLock c.idempotencyKey)] db := fun db h =>
    ⟨List.mem_cons_of_mem _ h.key, h.free, List.mem_cons_of_mem _ h.row, h.workflow⟩
  cases decision with
  | approve =>
    refine (@Keeps.deactivateVersions S _ _ c workflow versionId version _ hof (by simp) (by simp)
      fun taken held' => ?_).weaken fun db hdb => ⟨hmore db hdb.1.1, hdb.1.2⟩
    exact Txn.Safe.commit (fun db db' hdb hw =>
      .approved hdb.1 hdb.2.1 hof hpending hdb.2.2 hw) trivial
  | reject =>
    exact Txn.Safe.commit (fun db db' hdb hw =>
      .rejected (hmore db hdb.1.1) hdb.1.2 hof hpending List.mem_cons_self hw) trivial

/-- `activate_version` keeps its contract. -/
theorem keeps_activateVersion (c : LifecycleCall) (versionId : Uuid) (reason : Option String) :
    Keeps S (.activateVersion c versionId reason) (activateVersion c versionId reason) []
      fun _ => True := by
  refine Keeps.lockedExisting (Keeps.lockedWorkflow fun workflow => ?_)
  refine Keeps.workflowVersion (List.mem_cons_of_mem _ List.mem_cons_self) List.mem_cons_self
    fun version hof => ?_
  split
  · trivial
  rename_i happroved
  rw [not_not] at happroved
  refine Keeps.deactivateVersions hof (List.mem_cons_of_mem _ List.mem_cons_self)
    List.mem_cons_self fun taken held' => ?_
  exact Txn.Safe.commit (fun db db' hdb hw =>
    .activated hdb.1 hdb.2.1 hof happroved hdb.2.2 hw) trivial

/-- `update_status` keeps its contract. -/
theorem keeps_updateStatus (c : LifecycleCall) (status : WorkflowStatus) (reason : Option String) :
    Keeps S (.updateStatus c status reason) (updateStatus c status reason) [] fun _ => True := by
  refine Keeps.lockedExisting (Keeps.lockedWorkflow fun workflow => ?_)
  exact Txn.Safe.commit (fun db db' hlocked hw => .restated hlocked hw) trivial

/-- A lookup writes nothing. -/
theorem Keeps.lookup {op : Op} {p : PromoteCall} {next : Transaction}
    (h : Keeps S op next [] fun _ => True) : Keeps S op (lookup p next) [] fun _ => True := by
  refine Txn.Safe.select Txn.Stable.true fun db _ => ?_
  split
  · exact h
  · exact Txn.Safe.select Txn.Stable.true fun db _ => trivial

/-- `promote` keeps its contract. -/
theorem keeps_promote (p : PromoteCall) :
    Keeps S (.promote p) (promote S p) [] fun _ => True := by
  refine Keeps.lookup ?_
  split
  · trivial
  rename_i new hprepared
  refine Keeps.lookup (Txn.Safe.select Txn.Stable.true fun db _ => ?_)
  split
  · trivial
  refine Txn.Safe.select Txn.Stable.true fun db _ => ?_
  split
  · trivial
  refine Txn.Safe.select Txn.Stable.true fun db _ => ?_
  split
  · trivial
  split
  · trivial
  · refine Txn.Safe.commit (fun db db' _ hw => .promoted hprepared hw) ?_
    refine Txn.Safe.select Txn.Stable.true fun db _ => ?_
    split <;> trivial

/-- Every commit of the server is a change. -/
theorem meets (S : Settings) : (workload S).Meets (Change S) where
  frames := frames S
  safe op := by
    cases op with
    | existing c action => exact keeps_existing c action
    | createVersion c new => exact keeps_createVersion c new
    | reviewVersion c versionId decision reason =>
      exact keeps_reviewVersion c versionId decision reason
    | activateVersion c versionId reason => exact keeps_activateVersion c versionId reason
    | updateStatus c status reason => exact keeps_updateStatus c status reason
    | promote p => exact keeps_promote p

end Calls

/-! ## How calls end -/

/-- The result of a call that has not written: an exception, or a result that says so. -/
def Unapplied : Result → Prop
  | .ok (.action r) => r.applied = false
  | .ok (.promotion r) => r.created = false
  | _ => True

section Ends

variable {S : Settings}

/-- A repeated result is not applied again. -/
theorem unapplied_existingResult (c : LifecycleCall) (action : LifecycleAction) (row : ActionRow) :
    Unapplied (existingResult c action row) := by
  unfold existingResult
  split
  · trivial
  · rfl

/-- The lookup of the action ends without a commit. -/
theorem ends_lockedExisting {c : LifecycleCall} {action : LifecycleAction} {next : Transaction}
    (h : next.Ends Unapplied) : (lockedExisting c action next).Ends Unapplied := by
  intro _ row
  dsimp only
  split
  · exact unapplied_existingResult _ _ _
  · exact h

/-- So does the lookup of the Workflow. -/
theorem ends_lockedWorkflow {id : Uuid} {next : WorkflowRow → Transaction}
    (h : ∀ workflow, (next workflow).Ends Unapplied) : (lockedWorkflow id next).Ends Unapplied := by
  intro row
  dsimp only
  split
  · exact h _
  · trivial

/-- So does the lookup of the version. -/
theorem ends_workflowVersion {workflowId versionId : Uuid} {next : VersionRow → Transaction}
    (h : ∀ version, (next version).Ends Unapplied) :
    (workflowVersion workflowId versionId next).Ends Unapplied := by
  intro db
  dsimp only
  split
  · split
    · exact h _
    · trivial
  · trivial

/-- So does the lookup of the promotion. -/
theorem ends_lookup {p : PromoteCall} {next : Transaction} (h : next.Ends Unapplied) :
    (lookup p next).Ends Unapplied := by
  intro db
  dsimp only
  split
  · exact h
  · intro db
    show Unapplied (existingPromotion _ _ _)
    unfold existingPromotion
    split
    · trivial
    · split
      · trivial
      · rfl

/-- A call that ends without a commit raises, or says that it has not written. -/
theorem program_ends (S : Settings) (op : Op) : (op.program S).Ends Unapplied := by
  cases op with
  | existing c action =>
    intro db
    -- Every program ends at once, or under the locks it takes, or after the lookups it makes.
    dsimp only
    split
    · exact unapplied_existingResult _ _ _
    · trivial
  | createVersion c new =>
    refine ends_lockedExisting (ends_lockedWorkflow fun workflow db => ?_)
    dsimp only
    split
    · trivial
    · split <;> trivial
  | reviewVersion c versionId decision reason =>
    refine ends_lockedExisting (ends_lockedWorkflow fun workflow =>
      ends_workflowVersion fun version => ?_)
    split
    · trivial
    · intro _
      cases decision with
      | approve =>
        refine fun db => Txn.Ends.lockEach fun _ => ?_
        trivial
      | reject => trivial
  | activateVersion c versionId reason =>
    refine ends_lockedExisting (ends_lockedWorkflow fun workflow =>
      ends_workflowVersion fun version => ?_)
    split
    · trivial
    · refine fun db => Txn.Ends.lockEach fun _ => ?_
      trivial
  | updateStatus c status reason =>
    exact ends_lockedExisting (ends_lockedWorkflow fun workflow => trivial)
  -- A promotion: two lookups, and then the checks one by one.
  | promote p =>
    refine ends_lookup ?_
    split
    · trivial
    · refine ends_lookup fun db => ?_
      dsimp only
      split
      · trivial
      · intro db
        dsimp only
        split
        · trivial
        · intro db
          dsimp only
          split
          · trivial
          · split
            · trivial
            · intro db
              dsimp only
              split <;> trivial

/-- A commit returns, and says that it has written. -/
theorem Change.applied {op : Op} {held : List RowKey} {result : Result} {db db' : Db}
    (h : Change S op held result db db') : ∃ answer, result = .ok answer ∧ ¬ Unapplied result := by
  cases h <;> exact ⟨_, rfl, by simp [Unapplied, versionResult, statusResult, promotedResult]⟩

end Ends

end ExAgent.Workflows
