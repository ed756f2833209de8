import ExAgent.Workflows.Versions

/-!
# Idempotency keys

A key of the lifecycle belongs to the one call that stored an action under it, a key of promotions
to the one that stored a promotion. A call that begins afterwards finds what is stored: it returns
the stored result when it is the same call, whatever has become of the workflow, and raises a
conflict otherwise. The lifecycle keeps the whole result in the action; a promotion keeps the keys
of its rows, and the number and the hash of a version never change.
-/

namespace ExAgent.Workflows

open Lib ExAgent.Graph
open WorkflowLifecycleRepository WorkflowPromotionRepository

/-- What a lifecycle operation looks its key up with. -/
def Op.lifecycle? : Op → Option (LifecycleCall × LifecycleAction)
  | .existing c action => some (c, action)
  | .createVersion c _ => some (c, .versionCreated)
  | .reviewVersion c _ decision _ => some (c, decision.action)
  | .activateVersion c _ _ => some (c, .versionActivated)
  | .updateStatus c status _ => some (c, status.action)
  | .promote _ => none

/-- The calls with one key that are the same call. -/
def SameCall (c c' : LifecycleCall) (action action' : LifecycleAction) : Prop :=
  c.workflowId = c'.workflowId ∧ c.actorUserId = c'.actorUserId ∧ action = action' ∧
    c.requestHash = c'.requestHash

instance (c c' : LifecycleCall) (action action' : LifecycleAction) :
    Decidable (SameCall c c' action action') := inferInstanceAs (Decidable (_ ∧ _))

/-- The promotions with one key that are the same promotion. -/
def SamePromotion (p p' : PromoteCall) : Prop :=
  p.taskId = p'.taskId ∧ p.actorUserId = p'.actorUserId ∧ p.requestHash = p'.requestHash

instance (p p' : PromoteCall) : Decidable (SamePromotion p p') :=
  inferInstanceAs (Decidable (_ ∧ _))

/-- What a lifecycle call returns when its key is taken by a call with the result `r`. -/
def replay (c c' : LifecycleCall) (action action' : LifecycleAction)
    (r : LifecycleResult) : Result :=
  if SameCall c c' action action' then .ok (.action { r with applied := false })
  else .error (.lifecycleConflict "Idempotency key payload mismatch")

/-- What a promotion returns when its key is taken by one with the result `r`. -/
def replayPromotion (p p' : PromoteCall) (r : PromotionResult) : Result :=
  if SamePromotion p p' then .ok (.promotion { r with created := false })
  else .error (.promotionConflict "Idempotency key payload mismatch")

section Commits

variable {S : Settings} {op : Op} {held : List RowKey} {result : Result} {db db' : Db}

/-- A lifecycle commit stores its result under its key. -/
theorem Change.stores (h : Change S op held result db db') {c : LifecycleCall}
    {action : LifecycleAction} (hop : op.lifecycle? = some (c, action)) :
    ∃ r reason, result = .ok (.action r) ∧ r.applied = true ∧ r.workflowId = c.workflowId ∧
      r.action = action ∧ Acts c r reason db db' := by
  cases h with
  | created hlocked hwrite =>
    obtain ⟨rfl, rfl⟩ := Prod.mk.inj (Option.some.inj hop)
    exact ⟨_, _, rfl, rfl, rfl, rfl, (created_spec hwrite).1⟩
  | approved hlocked hversion hof hpending htaken hwrite =>
    obtain ⟨rfl, rfl⟩ := Prod.mk.inj (Option.some.inj hop)
    exact ⟨_, _, rfl, rfl, rfl, rfl,
      (approved_spec hwrite hversion (Change.taken htaken hversion hof)).1⟩
  | rejected hlocked hversion hof hpending hheld hwrite =>
    obtain ⟨rfl, rfl⟩ := Prod.mk.inj (Option.some.inj hop)
    exact ⟨_, _, rfl, rfl, rfl, rfl, (rejected_spec hwrite hversion).1⟩
  | activated hlocked hversion hof happroved htaken hwrite =>
    obtain ⟨rfl, rfl⟩ := Prod.mk.inj (Option.some.inj hop)
    exact ⟨_, _, rfl, rfl, rfl, rfl,
      (switched_spec hwrite hversion (Change.taken htaken hversion hof)).1⟩
  | restated hlocked hwrite =>
    obtain ⟨rfl, rfl⟩ := Prod.mk.inj (Option.some.inj hop)
    exact ⟨_, _, rfl, rfl, rfl, rfl, (restated_spec hwrite).1⟩
  | promoted hprepared hwrite => cases hop

/-- It is made under the advisory lock of its key. -/
theorem Change.locks (h : Change S op held result db db') {c : LifecycleCall}
    {action : LifecycleAction} (hop : op.lifecycle? = some (c, action)) :
    .advisory (idempotencyLock c.idempotencyKey) ∈ held := by
  cases h with
  | promoted hprepared hwrite => cases hop
  | created hlocked hwrite =>
    obtain ⟨rfl, rfl⟩ := Prod.mk.inj (Option.some.inj hop)
    exact hlocked.key
  | approved hlocked hversion hof hpending htaken hwrite =>
    obtain ⟨rfl, rfl⟩ := Prod.mk.inj (Option.some.inj hop)
    exact hlocked.key
  | rejected hlocked hversion hof hpending hheld hwrite =>
    obtain ⟨rfl, rfl⟩ := Prod.mk.inj (Option.some.inj hop)
    exact hlocked.key
  | activated hlocked hversion hof happroved htaken hwrite =>
    obtain ⟨rfl, rfl⟩ := Prod.mk.inj (Option.some.inj hop)
    exact hlocked.key
  | restated hlocked hwrite =>
    obtain ⟨rfl, rfl⟩ := Prod.mk.inj (Option.some.inj hop)
    exact hlocked.key

/-- An action stays. -/
theorem Change.action_kept (h : Change S op held result db db') {key : String} {row : ActionRow}
    (hrow : db.actions.get key = some row) : db'.actions.get key = some row := by
  rcases h.actions with heq | ⟨c, workflow, a, reason, -, -, -, hact⟩
  · rw [heq, hrow]
  · have hne : key ≠ c.idempotencyKey := by
      rintro rfl
      simp [hact.free] at hrow
    rw [hact.actions, if_neg hne, hrow]

/-- A promotion stays. -/
theorem Change.promotion_kept (h : Change S op held result db db') {key : String}
    {row : PromotionRow} (hrow : db.promotions.get key = some row) :
    db'.promotions.get key = some row := by
  by_cases hop : ∃ c action, op.lifecycle? = some (c, action)
  · obtain ⟨c, action, hop⟩ := hop
    obtain ⟨r, reason, -, -, -, -, hact⟩ := h.stores hop
    rw [hact.promotions, hrow]
  · cases h with
    | @promoted p new htask steps held db db' hprepared hwrite =>
      obtain ⟨-, -, hnone, -, -, hpromotions, -⟩ := promoted_spec hwrite
      have hne : key ≠ p.idempotencyKey := by
        rintro rfl
        simp [hnone] at hrow
      rw [hpromotions, if_neg hne, hrow]
    | _ => exact absurd ⟨_, _, rfl⟩ hop

/-- The number and the hash that a promotion is read with. -/
def Db.published (db : Db) (versionId : Uuid) : Option (ℕ × Sha256) :=
  (db.versions.get versionId).map fun v => (v.version, v.content.publicPayloadHash)

/-- They stay. -/
theorem Change.published_kept (h : Change S op held result db db') {versionId : Uuid}
    {x : ℕ × Sha256} (hx : db.published versionId = some x) : db'.published versionId = some x := by
  obtain ⟨v, hv, rfl⟩ := Option.map_eq_some_iff.mp hx
  obtain ⟨v', hv', hcont⟩ := h.versioned.continues hv
  rw [Db.published, hv', Option.map_some, hcont.version, hcont.content]

/-- A promotion stores the keys of its rows under its own. -/
theorem Change.promotes (h : Change S op held result db db') {p : PromoteCall}
    (hop : op = .promote p) :
    ∃ r new, new.source.taskId = p.taskId ∧ result = .ok (.promotion r) ∧ r.created = true ∧
      db.promotions.get p.idempotencyKey = none ∧
      db'.promotions.get p.idempotencyKey = some (p.promotionRow new) ∧
      r.workflowId = p.workflowId ∧ r.workflowVersionId = new.id ∧
      db'.published new.id = some (r.version, r.publicPayloadHash) := by
  subst hop
  cases h with
  | @promoted _ new htask _ _ _ _ hprepared hwrite =>
    obtain ⟨-, -, hnone, -, hversions, hpromotions, -⟩ := promoted_spec hwrite
    refine ⟨_, new, htask, rfl, rfl, hnone, by rw [hpromotions, if_pos rfl], rfl, rfl, ?_⟩
    rw [Db.published, hversions, if_pos rfl]
    rfl

end Commits

/-! ## Calls that find their key -/

section Answers

variable {S : Settings}

/-- A lifecycle call other than `existing` begins with the advisory lock of its key. -/
theorem lifecycle_begins {op : Op} {c : LifecycleCall} {action : LifecycleAction}
    (hop : op.lifecycle? = some (c, action)) :
    op = .existing c action ∨ ∃ next, op.program S = lockedExisting c action next := by
  cases op with
  | promote p => cases hop
  | existing c' action' =>
    obtain ⟨rfl, rfl⟩ := Prod.mk.inj (Option.some.inj hop)
    exact .inl rfl
  | _ =>
    obtain ⟨rfl, rfl⟩ := Prod.mk.inj (Option.some.inj hop)
    exact .inr ⟨_, rfl⟩

/-- It answers from the action under its key. -/
theorem answers_existing {op : Op} {c : LifecycleCall} {action : LifecycleAction} {row : ActionRow}
    (hop : op.lifecycle? = some (c, action)) :
    (op.program S).Answers Db.row (fun db => db.actions.get c.idempotencyKey = some row)
      (· = existingResult c action row) := by
  rcases lifecycle_begins (S := S) hop with rfl | ⟨next, hprogram⟩
  · intro db hdb
    simp [hdb, Txn.Answers]
  · rw [hprogram]
    intro db _ db hdb
    simp [Db.row, hdb, Row.action?, Txn.Answers]

/-- What a promotion with the key of a stored one returns, which has the number and the hash `x`. -/
def publishedResult (p : PromoteCall) (row : PromotionRow) (x : ℕ × Sha256) : Result :=
  if row.taskId ≠ p.taskId ∨ row.actorUserId ≠ p.actorUserId ∨ row.requestHash ≠ p.requestHash then
    .error (.promotionConflict "Idempotency key payload mismatch")
  else .ok (.promotion ⟨row.workflowId, row.workflowVersionId, x.1, false, x.2⟩)

/-- A promotion that still looks for its key answers from the promotion under it. -/
theorem answers_lookup {p : PromoteCall} {next : Transaction} {row : PromotionRow}
    {x : ℕ × Sha256} :
    (lookup p next).Answers Db.row
      (fun db => db.promotions.get p.idempotencyKey = some row ∧
        db.published row.workflowVersionId = some x)
      (· = publishedResult p row x) := by
  intro db hdb
  simp only [hdb.1]
  intro db hdb
  obtain ⟨v, hv, rfl⟩ := Option.map_eq_some_iff.mp hdb.2
  simp only [hv]
  rfl

/-- The stored action, for a later call. -/
theorem existingResult_actionRow {c c' : LifecycleCall} {action action' : LifecycleAction}
    {r : LifecycleResult} {reason : Option String} (hworkflow : r.workflowId = c.workflowId)
    (haction : r.action = action) :
    existingResult c' action' (c.actionRow r reason) = replay c c' action action' r := by
  unfold existingResult replay
  by_cases h : SameCall c c' action action'
  · rw [if_pos h, if_neg]
    · rfl
    · rintro (hne | hne | hne | hne)
      · exact hne (hworkflow.trans h.1)
      · exact hne h.2.1
      · exact hne (haction.trans h.2.2.1)
      · exact hne h.2.2.2
  · rw [if_neg h, if_pos]
    by_contra hsame
    simp only [not_or, not_not] at hsame
    exact h ⟨hworkflow.symm.trans hsame.1, hsame.2.1, haction.symm.trans hsame.2.2.1, hsame.2.2.2⟩

end Answers

/-! ## Calls that are running when their key is taken -/

section Running

variable {S : Settings}

/-- Nothing is left of a lifecycle call but its answer: its commit was refused and it holds nothing
any more, or `existing` has found the key free. -/
structure Settled (held : List RowKey) (rest : Transaction) (a : Result) : Prop where
  released : held = []
  rest : rest = .ret a
  answer : a = .error .integrityError ∨ a = .ok .none

/-- Where a lifecycle call can be: it has not begun, it holds the advisory lock of its key, its key
is taken, or its answer is settled. -/
inductive Awaits (S : Settings) (op : Op) (c : LifecycleCall) (held : List RowKey)
    (rest : Transaction) (db : Db) : Prop
  | start (hheld : held = []) (hrest : rest = op.program S)
  | locked (hlock : .advisory (idempotencyLock c.idempotencyKey) ∈ held)
      (hrejects : rest.Rejects (· = .error .integrityError))
  | taken {row : ActionRow} (hrow : db.actions.get c.idempotencyKey = some row)
  | settled {a : Result} (hsettled : Settled held rest a)

/-- The lookup of the action leaves how a call is rejected. -/
theorem rejects_lockedExisting {c : LifecycleCall} {action : LifecycleAction} {next : Transaction}
    (h : next.Rejects (· = .error .integrityError)) :
    (lockedExisting c action next).Rejects (· = .error .integrityError) := by
  intro _ row
  dsimp only
  split
  · trivial
  · exact h

/-- So does the lookup of the Workflow. -/
theorem rejects_lockedWorkflow {id : Uuid} {next : WorkflowRow → Transaction}
    (h : ∀ workflow, (next workflow).Rejects (· = .error .integrityError)) :
    (lockedWorkflow id next).Rejects (· = .error .integrityError) := by
  intro row
  dsimp only
  split
  · exact h _
  · trivial

/-- So does the lookup of the version. -/
theorem rejects_workflowVersion {workflowId versionId : Uuid} {next : VersionRow → Transaction}
    (h : ∀ version, (next version).Rejects (· = .error .integrityError)) :
    (workflowVersion workflowId versionId next).Rejects (· = .error .integrityError) := by
  intro db
  dsimp only
  split
  · split
    · exact h _
    · trivial
  · trivial

/-- A refused commit of the lifecycle ends its call. -/
theorem rejects_program {op : Op} {c : LifecycleCall} {action : LifecycleAction}
    (hop : op.lifecycle? = some (c, action)) :
    (op.program S).Rejects (· = .error .integrityError) := by
  cases op with
  | promote p => cases hop
  | existing c' action' =>
    intro db
    dsimp only
    split <;> trivial
  | createVersion c' new =>
    refine rejects_lockedExisting (rejects_lockedWorkflow fun workflow db => ?_)
    dsimp only
    split
    · trivial
    · split
      · trivial
      · exact ⟨_, rfl, rfl⟩
  | reviewVersion c' versionId decision reason =>
    refine rejects_lockedExisting (rejects_lockedWorkflow fun workflow =>
      rejects_workflowVersion fun version => ?_)
    split
    · trivial
    · intro _
      cases decision with
      | approve => exact fun db => Txn.Rejects.lockEach fun _ => ⟨_, rfl, rfl⟩
      | reject => exact ⟨_, rfl, rfl⟩
  | activateVersion c' versionId reason =>
    refine rejects_lockedExisting (rejects_lockedWorkflow fun workflow =>
      rejects_workflowVersion fun version => ?_)
    split
    · trivial
    · exact fun db => Txn.Rejects.lockEach fun _ => ⟨_, rfl, rfl⟩
  | updateStatus c' status reason =>
    exact rejects_lockedExisting (rejects_lockedWorkflow fun workflow => ⟨_, rfl, rfl⟩)

/-- What a row is locked with stays locked. -/
theorem mem_acquire {db : Db} {k j : RowKey} {held : List RowKey} (h : j ∈ held) :
    j ∈ Txn.acquire Db.row db k held := by
  unfold Txn.acquire
  split
  · exact List.mem_cons_of_mem _ h
  · exact h

/-- A key is stored for promotions. -/
def Db.isPromoted (db : Db) (key : String) : Prop := ∃ row, db.promotions.get key = some row

/-- How a promotion ends that has looked for its key in vain before it was taken: a conflict, or an
error of its own. -/
inductive Late (p : PromoteCall) : Result → Prop
  | conflict (text : String) : Late p (.error (.promotionConflict text))
  /-- Its source is not eligible, or cannot be prepared. -/
  | notPrepared {e : Error} (h : p.prepared = .error e) : Late p (.error e)
  /-- Its Steps have no rows. -/
  | steps {new : NewVersion} {htask : new.source.taskId = p.taskId} {e : Error}
      (hprepared : p.prepared = .ok ⟨new, htask⟩)
      (h : workflowSteps new.id 0 new.plan.steps new.source.steps = .error e) : Late p (.error e)
  /-- The key that was generated for its version is taken. -/
  | version {new : NewVersion} {htask : new.source.taskId = p.taskId}
      (hprepared : p.prepared = .ok ⟨new, htask⟩) : Late p (.error .integrityError)

/-- A promotion that still looks for its key, once or twice, or has looked in vain. -/
inductive Looks (p : PromoteCall) : Transaction → Prop
  | late {rest : Transaction} (h : rest.Barred (Db.isPromoted · p.idempotencyKey) (Late p)) :
    Looks p rest
  | lookup {next : Transaction} (h : Looks p next) : Looks p (lookup p next)

/-- A promotion looks for its key before it writes. -/
theorem looks_promote (p : PromoteCall) : Looks p (promote S p) := by
  refine .lookup ?_
  cases hprepared : p.prepared with
  | error e => exact .late (.notPrepared hprepared)
  | ok new =>
    refine .lookup (.late fun db => ?_)
    dsimp only
    split
    · exact .conflict _
    · intro db
      dsimp only
      split
      · exact .conflict _
      · intro db
        dsimp only
        split
        · exact .version hprepared
        · split
          · rename_i hsteps
            exact .steps hprepared hsteps
          · refine ⟨fun db hdb => ?_, fun db => ?_⟩
            · -- The unique index of the keys refuses the promotion.
              obtain ⟨row, hrow⟩ := hdb
              by_contra hwrite
              obtain ⟨db', hwrite⟩ := Option.ne_none_iff_exists'.mp hwrite
              obtain ⟨-, -, hnone, -⟩ := promoted_spec hwrite
              simp [hrow] at hnone
            · dsimp only
              split
              · exact .conflict _
              · exact .conflict _

/-- When its key is taken, such a promotion answers from it or is late. -/
theorem Looks.answers {p : PromoteCall} {rest : Transaction} (h : Looks p rest) {row : PromotionRow}
    {x : ℕ × Sha256} :
    rest.Answers Db.row
      (fun db => db.promotions.get p.idempotencyKey = some row ∧
        db.published row.workflowVersionId = some x)
      (fun a => a = publishedResult p row x ∨ Late p a) := by
  cases h with
  | late h => exact (h.answers fun db hdb => ⟨row, hdb.1⟩).weaken fun a ha => .inr ha
  | lookup h => exact answers_lookup.weaken fun a ha => .inl ha

section Reachable

variable {init : Db → Prop} {s : Server Db RowKey Row Op Result}

/-- Where the lifecycle calls of a run are. -/
theorem awaits_reachable (hr : (Server.machine (workload S) init).Reachable s) :
    ∀ id op held rest, s.calls.get id = some ⟨op, .running held rest⟩ →
      ∀ c action, op.lifecycle? = some (c, action) → Awaits S op c held rest s.db := by
  refine Server.known_reachable (meets S) (K := fun op held rest db =>
    ∀ c action, op.lifecycle? = some (c, action) → Awaits S op c held rest db) ?_ ?_ ?_ ?_ ?_ hr
  · exact fun op db c action hop => .start rfl rfl
  · intro op held next db hK c action hop
    cases hK c action hop with
    | start hheld hrest =>
      rcases lifecycle_begins (S := S) hop with rfl | ⟨next', hprogram⟩
      · -- `existing` reads the key.
        obtain rfl := Txn.select.inj hrest
        dsimp only
        split
        · rename_i row hrow
          exact .taken hrow
        · exact .settled ⟨hheld, rfl, .inr rfl⟩
      · rw [hprogram] at hrest
        cases hrest
    | locked hlock hrejects => exact .locked hlock (hrejects db)
    | taken hrow => exact .taken hrow
    | settled hsettled => exact absurd hsettled.rest (by simp)
  · intro op held k next db hK c action hop
    cases hK c action hop with
    | start hheld hrest =>
      have hrejects := rejects_program (S := S) hop
      rw [← hrest] at hrejects
      rcases lifecycle_begins (S := S) hop with rfl | ⟨next', hprogram⟩
      · cases hrest
      · rw [hprogram] at hrest
        obtain ⟨rfl, -⟩ := Txn.lock.inj hrest
        exact .locked List.mem_cons_self (hrejects _)
    | locked hlock hrejects => exact .locked (mem_acquire hlock) (hrejects _)
    | taken hrow => exact .taken hrow
    | settled hsettled => exact absurd hsettled.rest (by simp)
  · intro op held write a violated db hK hw c action hop
    cases hK c action hop with
    | start hheld hrest =>
      rcases lifecycle_begins (S := S) hop with rfl | ⟨next', hprogram⟩
      · cases hrest
      · rw [hprogram] at hrest
        cases hrest
    | locked hlock hrejects =>
      obtain ⟨b, rfl, rfl⟩ := hrejects
      exact .settled ⟨rfl, rfl, .inl rfl⟩
    | taken hrow => exact .taken hrow
    | settled hsettled => exact absurd hsettled.rest (by simp)
  · rintro op held rest db db' held' hK hdisjoint ⟨op', result, hchange⟩ c action hop
    cases hK c action hop with
    | start hheld hrest => exact .start hheld hrest
    | locked hlock hrejects => exact .locked hlock hrejects
    | taken hrow => exact .taken (hchange.action_kept hrow)
    | settled hsettled => exact .settled hsettled

/-- Where the promotions of a run are. -/
theorem looks_reachable (hr : (Server.machine (workload S) init).Reachable s) :
    ∀ id op held rest, s.calls.get id = some ⟨op, .running held rest⟩ →
      ∀ p, op = .promote p → Looks p rest ∨ s.db.isPromoted p.idempotencyKey := by
  refine Server.known_reachable (meets S) (K := fun op held rest db =>
    ∀ p, op = .promote p → Looks p rest ∨ db.isPromoted p.idempotencyKey) ?_ ?_ ?_ ?_ ?_ hr
  · rintro op db p rfl
    exact .inl (looks_promote p)
  · intro op held next db hK p hop
    rcases hK p hop with hlooks | hkey
    · cases hlooks with
      | late h => exact .inl (.late (h db))
      | lookup h =>
        dsimp only
        split
        · exact .inl h
        · rename_i row hrow
          exact .inr ⟨row, hrow⟩
    · exact .inr hkey
  · intro op held k next db hK p hop
    rcases hK p hop with hlooks | hkey
    · cases hlooks with
      | late h => exact .inl (.late (h _))
    · exact .inr hkey
  · intro op held write a violated db hK hw p hop
    rcases hK p hop with hlooks | hkey
    · cases hlooks with
      | late h => exact .inl (.late h.2)
    · exact .inr hkey
  · rintro op held rest db db' held' hK hdisjoint ⟨op', result, hchange⟩ p hop
    rcases hK p hop with hlooks | ⟨row, hrow⟩
    · exact .inl hlooks
    · exact .inr ⟨row, hchange.promotion_kept hrow⟩

end Reachable

end Running

/-! ## Runs -/

section Runs

variable {S : Settings} {init : Db → Prop} {s s' : Server Db RowKey Row Op Result}

/-- What a run has stored: each commit is the only one with its key, and is found under it. -/
structure Recorded (s : Server Db RowKey Row Op Result) : Prop where
  action : ∀ e ∈ s.history, ∀ c action, e.op.lifecycle? = some (c, action) →
    ∃ r reason, e.result = .ok (.action r) ∧ r.applied = true ∧ r.workflowId = c.workflowId ∧
      r.action = action ∧ s.db.actions.get c.idempotencyKey = some (c.actionRow r reason)
  oneAction : ∀ e ∈ s.history, ∀ e' ∈ s.history, ∀ c action c' action',
    e.op.lifecycle? = some (c, action) → e'.op.lifecycle? = some (c', action') →
    c.idempotencyKey = c'.idempotencyKey → e = e'
  promotion : ∀ e ∈ s.history, ∀ p, e.op = .promote p →
    ∃ r new, new.source.taskId = p.taskId ∧ e.result = .ok (.promotion r) ∧ r.created = true ∧
      s.db.promotions.get p.idempotencyKey = some (p.promotionRow new) ∧
      r.workflowId = p.workflowId ∧ r.workflowVersionId = new.id ∧
      s.db.published new.id = some (r.version, r.publicPayloadHash)
  onePromotion : ∀ e ∈ s.history, ∀ e' ∈ s.history, ∀ p p',
    e.op = .promote p → e'.op = .promote p' → p.idempotencyKey = p'.idempotencyKey → e = e'

/-- In every reachable state, the history records the commits. -/
theorem recorded_reachable (hr : (Server.machine (workload S) init).Reachable s) : Recorded s := by
  induction hr with
  | start hs =>
    obtain ⟨db, -, rfl⟩ := hs
    exact ⟨by simp, by simp, by simp, by simp⟩
  | @next s s' act hr _ hstep ih =>
    cases Server.moved (meets S) hr hstep with
    | quiet hdb hhistory =>
      refine ⟨?_, ?_, ?_, ?_⟩
      · rw [hdb, hhistory]
        exact ih.action
      · rw [hhistory]
        exact ih.oneAction
      · rw [hdb, hhistory]
        exact ih.promotion
      · rw [hhistory]
        exact ih.onePromotion
    | committed new held write violated ha hcall hown hhistory hended =>
      -- A key that is stored is not free for the new commit.
      have hfresh : ∀ e ∈ s.history, ∀ c action c' action', e.op.lifecycle? = some (c, action) →
          new.op.lifecycle? = some (c', action') → c.idempotencyKey ≠ c'.idempotencyKey := by
        intro e he c action c' action' hop hop' hkey
        obtain ⟨r, reason, -, -, -, -, hstored⟩ := ih.action e he c action hop
        obtain ⟨r', reason', -, -, -, -, hact⟩ := hown.stores hop'
        rw [hkey, hact.free] at hstored
        cases hstored
      have hfresh' : ∀ e ∈ s.history, ∀ p p', e.op = .promote p → new.op = .promote p' →
          p.idempotencyKey ≠ p'.idempotencyKey := by
        intro e he p p' hop hop' hkey
        obtain ⟨r, v, -, -, -, hstored, -⟩ := ih.promotion e he p hop
        obtain ⟨r', v', -, -, -, hnone, -⟩ := hown.promotes hop'
        rw [hkey, hnone] at hstored
        cases hstored
      constructor <;> rw [hhistory]
      · intro e he c action hop
        rcases List.mem_append.mp he with he | he
        · obtain ⟨r, reason, hresult, happlied, hworkflow, haction, hstored⟩ :=
            ih.action e he c action hop
          exact ⟨r, reason, hresult, happlied, hworkflow, haction, hown.action_kept hstored⟩
        · obtain rfl := List.mem_singleton.mp he
          obtain ⟨r, reason, hresult, happlied, hworkflow, haction, hact⟩ := hown.stores hop
          exact ⟨r, reason, hresult, happlied, hworkflow, haction, by rw [hact.actions, if_pos rfl]⟩
      · intro e he e' he' c action c' action' hop hop' hkey
        rcases List.mem_append.mp he with hin | hin <;>
          rcases List.mem_append.mp he' with hin' | hin'
        · exact ih.oneAction e hin e' hin' c action c' action' hop hop' hkey
        · obtain rfl := List.mem_singleton.mp hin'
          exact absurd hkey (hfresh e hin c action c' action' hop hop')
        · obtain rfl := List.mem_singleton.mp hin
          exact absurd hkey.symm (hfresh e' hin' c' action' c action hop' hop)
        · rw [List.mem_singleton.mp hin, List.mem_singleton.mp hin']
      · intro e he p hop
        rcases List.mem_append.mp he with he | he
        · obtain ⟨r, v, htask, hresult, hcreated, hstored, hw, hv, hpub⟩ := ih.promotion e he p hop
          exact ⟨r, v, htask, hresult, hcreated, hown.promotion_kept hstored, hw, hv,
            hown.published_kept hpub⟩
        · obtain rfl := List.mem_singleton.mp he
          obtain ⟨r, v, htask, hresult, hcreated, -, hstored, hw, hv, hpub⟩ := hown.promotes hop
          exact ⟨r, v, htask, hresult, hcreated, hstored, hw, hv, hpub⟩
      · intro e he e' he' p p' hop hop' hkey
        rcases List.mem_append.mp he with hin | hin <;>
          rcases List.mem_append.mp he' with hin' | hin'
        · exact ih.onePromotion e hin e' hin' p p' hop hop' hkey
        · obtain rfl := List.mem_singleton.mp hin'
          exact absurd hkey (hfresh' e hin p p' hop hop')
        · obtain rfl := List.mem_singleton.mp hin
          exact absurd hkey.symm (hfresh' e' hin' p' p hop' hop)
        · rw [List.mem_singleton.mp hin, List.mem_singleton.mp hin']

/-- The steps of a call, up to a state, leave the database as it is. -/
def Silent (S : Settings) (init : Db → Prop) (s : Server Db RowKey Row Op Result) (id : ℕ) : Prop :=
  ∀ t act t', (Server.machine (workload S) init).Reachable t →
    (Server.machine (workload S) init).step t act = some t' →
    (Server.machine (workload S) init).Leads t' s → act.call = id → t'.db = t.db

/-- The history of a run grows. -/
theorem history_leads (hl : (Server.machine (workload S) init).Leads s s') :
    s.history <+: s'.history := by
  induction hl with
  | refl => exact List.prefix_rfl
  | tail _ hstep ih =>
    obtain ⟨a, hstep⟩ := hstep
    exact ih.trans (Server.step_history hstep)

/-- A call without a commit is silent. -/
theorem Silent.of_history {id : ℕ} (h : ∀ e ∈ s.history, e.id ≠ id) : Silent S init s id := by
  rintro t act t' hr hstep hl rfl
  cases Server.moved (meets S) hr hstep with
  | quiet hdb _ => exact hdb
  | committed e held write violated ha hcall hown hhistory hended =>
    subst ha
    have hmem : e ∈ s.history := (history_leads hl).subset (by simp [hhistory])
    exact absurd rfl (h e hmem)

/-- A call is answered with one of the results `Q`: it ends with one unless it is lost, it does end
when what is left of it runs alone, and it changes nothing. -/
structure Answered (S : Settings) (init : Db → Prop) (s : Server Db RowKey Row Op Result) (id : ℕ)
    (progress : Progress Db RowKey Row Result) (Q : Result → Prop) : Prop where
  ended : ∀ a, progress = .ended a → Q a
  alone : ∀ held rest, progress = .running held rest →
    Q (rest.exec Db.row s.db).1 ∧ (rest.exec Db.row s.db).2 = s.db
  silent : Silent S init s id

/-- A call is answered from what is stored, if its program and what is left of it answer from
that. -/
theorem Answered.of_stored {P : Db → Prop} {Q : Result → Prop}
    (hP : ∀ op held result db db', P db → Change S op held result db db' → P db')
    (hr : (Server.machine (workload S) init).Reachable s) (hs : P s.db) {id : ℕ} {op : Op}
    (hprogram : (op.program S).Answers Db.row P Q)
    (hcall : ∀ progress, s.calls.get id = some ⟨op, progress⟩ →
      ∃ held rest, progress = .running held rest ∧ rest.Answers Db.row P Q)
    (hl : (Server.machine (workload S) init).Leads s s')
    {progress : Progress Db RowKey Row Result} (hc : s'.calls.get id = some ⟨op, progress⟩) :
    Answered S init s' id progress Q := by
  obtain ⟨hs', hended, hrunning, hhistory⟩ :=
    Server.answers (meets S) hP hr hs hprogram hcall hl hc
  exact ⟨hended, fun held rest h => (hrunning held rest h).exec hs', .of_history hhistory⟩

/-- A call that begins after a commit is another one. -/
theorem ne_of_commit {e : Entry Op Result} {before after : Server Db RowKey Row Op Result}
    (h : Server.Commit (workload S) init e before after s) {id : ℕ}
    (hnew : before.calls.get id = none) : id ≠ e.id := by
  rintro rfl
  obtain ⟨held, ⟨rest, hcall⟩, -⟩ := h.change (meets S)
  simp [hnew] at hcall

/-- What a commit of the lifecycle has stored. -/
theorem stored_action (hr : (Server.machine (workload S) init).Reachable s)
    {e : Entry Op Result} (he : e ∈ s.history) {c : LifecycleCall} {action : LifecycleAction}
    (hop : e.op.lifecycle? = some (c, action)) {r : LifecycleResult}
    (hresult : e.result = .ok (.action r)) :
    ∃ reason, r.workflowId = c.workflowId ∧ r.action = action ∧
      s.db.actions.get c.idempotencyKey = some (c.actionRow r reason) := by
  obtain ⟨r', reason, hresult', -, hworkflow, haction, hstored⟩ :=
    (recorded_reachable hr).action e he c action hop
  obtain rfl : r = r' := by
    rw [hresult] at hresult'
    simpa using hresult'
  exact ⟨reason, hworkflow, haction, hstored⟩

/-- The lifecycle calls with the key of a commit, from its state after on. -/
theorem lifecycle_answered {e : Entry Op Result} {before after : Server Db RowKey Row Op Result}
    (h : Server.Commit (workload S) init e before after s) {c : LifecycleCall}
    {action : LifecycleAction} (hop : e.op.lifecycle? = some (c, action)) {r : LifecycleResult}
    (hresult : e.result = .ok (.action r)) {op : Op} {c' : LifecycleCall}
    {action' : LifecycleAction} (hop' : op.lifecycle? = some (c', action'))
    (hkey : c'.idempotencyKey = c.idempotencyKey) {Q : Result → Prop}
    (hQ : Q (replay c c' action action' r)) {id : ℕ}
    (hcall : ∀ progress, after.calls.get id = some ⟨op, progress⟩ →
      ∃ held rest, progress = .running held rest ∧
        (rest = op.program S ∨ ∃ a, Settled held rest a ∧ Q a))
    {progress : Progress Db RowKey Row Result} (hc : s.calls.get id = some ⟨op, progress⟩) :
    Answered S init s id progress Q := by
  have hr := h.reachable.step h.step
  obtain ⟨reason, hworkflow, haction, hstored⟩ := stored_action hr h.recorded hop hresult
  have hprogram : (op.program S).Answers Db.row
      (fun db => db.actions.get c'.idempotencyKey = some (c.actionRow r reason)) Q := by
    refine (answers_existing hop').weaken fun a ha => ?_
    rw [ha, existingResult_actionRow hworkflow haction]
    exact hQ
  refine .of_stored (fun _ _ _ _ _ hrow hchange => hchange.action_kept hrow) hr (hkey ▸ hstored)
    hprogram (fun q hq => ?_) h.leads hc
  obtain ⟨held, rest, rfl, rfl | ⟨a, hsettled, ha⟩⟩ := hcall q hq
  · exact ⟨held, _, rfl, hprogram⟩
  · obtain rfl := hsettled.rest
    exact ⟨held, _, rfl, ha⟩

/-- A lifecycle call run alone after a commit with its key. -/
theorem lifecycle_exec (hr : (Server.machine (workload S) init).Reachable s)
    {e : Entry Op Result} (he : e ∈ s.history) {c : LifecycleCall} {action : LifecycleAction}
    (hop : e.op.lifecycle? = some (c, action)) {r : LifecycleResult}
    (hresult : e.result = .ok (.action r)) {op : Op} {c' : LifecycleCall}
    {action' : LifecycleAction} (hop' : op.lifecycle? = some (c', action'))
    (hkey : c'.idempotencyKey = c.idempotencyKey) :
    (op.program S).exec Db.row s.db = (replay c c' action action' r, s.db) := by
  obtain ⟨reason, hworkflow, haction, hstored⟩ := stored_action hr he hop hresult
  rw [← hkey] at hstored
  obtain ⟨hanswer, hdb⟩ := (answers_existing (S := S) hop').exec hstored
  rw [existingResult_actionRow hworkflow haction] at hanswer
  exact Prod.ext hanswer hdb

/-- A call that was running when a lifecycle call committed with its key had not begun, or was
settled: it did not hold the advisory lock. -/
theorem awaits_commit {e : Entry Op Result} {before after : Server Db RowKey Row Op Result}
    (h : Server.Commit (workload S) init e before after s) {c : LifecycleCall}
    {action : LifecycleAction} (hop : e.op.lifecycle? = some (c, action)) {id : ℕ} {op : Op}
    {held : List RowKey} {rest : Transaction} (hid : id ≠ e.id)
    (hcall : before.calls.get id = some ⟨op, .running held rest⟩) {c' : LifecycleCall}
    {action' : LifecycleAction} (hop' : op.lifecycle? = some (c', action'))
    (hkey : c'.idempotencyKey = c.idempotencyKey) :
    rest = op.program S ∨ ∃ a, Settled held rest a := by
  obtain ⟨held', ⟨rest', hcommits⟩, hchange⟩ := h.change (meets S)
  obtain ⟨r, reason, -, -, -, -, hacts⟩ := hchange.stores hop
  cases awaits_reachable h.reachable id op held rest hcall c' action' hop' with
  | start hheld hrest => exact .inl hrest
  | locked hlock hrejects =>
    rw [hkey] at hlock
    have hexclusive := (Server.sound_reachable (meets S) h.reachable).exclusive id e.id _ _ hcall
      hcommits hid
    exact absurd (hchange.locks hop) (hexclusive _ hlock)
  | taken hrow =>
    rw [hkey, hacts.free] at hrow
    cases hrow
  | settled hsettled => exact .inr ⟨_, hsettled⟩

/-- What a promotion has stored, for a later one with its key. -/
theorem stored_promotion (hr : (Server.machine (workload S) init).Reachable s)
    {e : Entry Op Result} (he : e ∈ s.history) {p p' : PromoteCall} (hop : e.op = .promote p)
    {r : PromotionResult} (hresult : e.result = .ok (.promotion r))
    (hkey : p'.idempotencyKey = p.idempotencyKey) :
    ∃ row x, s.db.promotions.get p'.idempotencyKey = some row ∧
      s.db.published row.workflowVersionId = some x ∧
      publishedResult p' row x = replayPromotion p p' r := by
  obtain ⟨r', new, htask, hresult', hcreated, hstored, hw, hv, hpub⟩ :=
    (recorded_reachable hr).promotion e he p hop
  obtain rfl : r = r' := by
    rw [hresult] at hresult'
    simpa using hresult'
  refine ⟨p.promotionRow new, _, hkey ▸ hstored, hpub, ?_⟩
  unfold publishedResult replayPromotion
  by_cases h : SamePromotion p p'
  · rw [if_pos h, if_neg]
    · simp only [PromoteCall.promotionRow, ← hw, ← hv]
    · rintro (hne | hne | hne)
      · exact hne (htask.trans h.1)
      · exact hne h.2.1
      · exact hne h.2.2
  · rw [if_neg h, if_pos]
    by_contra hsame
    simp only [not_or, not_not] at hsame
    exact h ⟨htask.symm.trans hsame.1, hsame.2⟩

/-- The promotions with the key of a commit, from its state after on. -/
theorem promotion_answered {e : Entry Op Result} {before after : Server Db RowKey Row Op Result}
    (h : Server.Commit (workload S) init e before after s) {p p' : PromoteCall}
    (hop : e.op = .promote p) {r : PromotionResult} (hresult : e.result = .ok (.promotion r))
    (hkey : p'.idempotencyKey = p.idempotencyKey) {id : ℕ}
    (hcall : ∀ progress, after.calls.get id = some ⟨.promote p', progress⟩ →
      ∃ held rest, progress = .running held rest ∧ Looks p' rest)
    {progress : Progress Db RowKey Row Result}
    (hc : s.calls.get id = some ⟨.promote p', progress⟩) :
    Answered S init s id progress fun a => a = replayPromotion p p' r ∨ Late p' a := by
  have hr := h.reachable.step h.step
  obtain ⟨row, x, hrow, hx, hreplay⟩ := stored_promotion hr h.recorded hop hresult hkey
  rw [← hreplay]
  refine .of_stored (P := fun db => db.promotions.get p'.idempotencyKey = some row ∧
      db.published row.workflowVersionId = some x)
    (fun _ _ _ _ _ hs hchange => ⟨hchange.promotion_kept hs.1, hchange.published_kept hs.2⟩) hr
    ⟨hrow, hx⟩ (looks_promote p').answers (fun q hq => ?_) h.leads hc
  obtain ⟨held, rest, rfl, hlooks⟩ := hcall q hq
  exact ⟨held, rest, rfl, hlooks.answers⟩

/-- A promotion that begins after a commit with its key. -/
theorem promotion_replayed {e : Entry Op Result} {before after : Server Db RowKey Row Op Result}
    (h : Server.Commit (workload S) init e before after s) {p p' : PromoteCall}
    (hop : e.op = .promote p) {r : PromotionResult} (hresult : e.result = .ok (.promotion r))
    (hkey : p'.idempotencyKey = p.idempotencyKey) {id : ℕ} (hnew : before.calls.get id = none)
    {progress : Progress Db RowKey Row Result}
    (hc : s.calls.get id = some ⟨.promote p', progress⟩) :
    Answered S init s id progress (· = replayPromotion p p' r) := by
  have hr := h.reachable.step h.step
  obtain ⟨row, x, hrow, hx, hreplay⟩ := stored_promotion hr h.recorded hop hresult hkey
  rw [← hreplay]
  have hprogram : (Op.program S (.promote p')).Answers Db.row
      (fun db => db.promotions.get p'.idempotencyKey = some row ∧
        db.published row.workflowVersionId = some x) (· = publishedResult p' row x) :=
    answers_lookup
  refine .of_stored
    (fun _ _ _ _ _ hs hchange => ⟨hchange.promotion_kept hs.1, hchange.published_kept hs.2⟩) hr
    ⟨hrow, hx⟩ hprogram (fun q hq => ?_) h.leads hc
  rw [h.others (ne_of_commit h hnew), hnew] at hq
  cases hq

/-- A promotion that was running when its key was taken still looked for it, or had looked in
vain. -/
theorem looks_commit {e : Entry Op Result} {before after : Server Db RowKey Row Op Result}
    (h : Server.Commit (workload S) init e before after s) {p p' : PromoteCall}
    (hop : e.op = .promote p) {id : ℕ} {held : List RowKey} {rest : Transaction}
    (hcall : before.calls.get id = some ⟨.promote p', .running held rest⟩)
    (hkey : p'.idempotencyKey = p.idempotencyKey) : Looks p' rest := by
  obtain ⟨held', -, hchange⟩ := h.change (meets S)
  obtain ⟨r, new, -, -, -, hnone, -⟩ := hchange.promotes hop
  refine (looks_reachable h.reachable id _ held rest hcall p' rfl).resolve_right ?_
  rintro ⟨row, hrow⟩
  rw [hkey, hnone] at hrow
  cases hrow

/-- What a commit `e` of the lifecycle with the result `r` settles for the calls with its key, in
every run that goes on from it. -/
structure LifecycleKey (S : Settings) (init : Db → Prop) (s : Server Db RowKey Row Op Result)
    (e : Entry Op Result) (c : LifecycleCall) (action : LifecycleAction) (r : LifecycleResult) :
    Prop where
  stored : e.result = .ok (.action r)
  applied : r.applied = true
  /-- It is the only commit with the key. -/
  once : ∀ e' ∈ s.history, ∀ c' action', e'.op.lifecycle? = some (c', action') →
    c'.idempotencyKey = c.idempotencyKey → e' = e
  commit : ∃ before after, Server.Commit (workload S) init e before after s
  /-- A call that begins after it. -/
  later : ∀ before after s' id op progress c' action',
    Server.Commit (workload S) init e before after s' → before.calls.get id = none →
    s'.calls.get id = some ⟨op, progress⟩ → op.lifecycle? = some (c', action') →
    c'.idempotencyKey = c.idempotencyKey →
    Answered S init s' id progress (· = replay c c' action action' r)
  /-- A call that is running at it, wherever it is. -/
  running : ∀ before after s' id op held rest progress c' action',
    Server.Commit (workload S) init e before after s' → id ≠ e.id →
    before.calls.get id = some ⟨op, .running held rest⟩ → s'.calls.get id = some ⟨op, progress⟩ →
    op.lifecycle? = some (c', action') → c'.idempotencyKey = c.idempotencyKey →
    Answered S init s' id progress fun a =>
      a = replay c c' action action' r ∨ Settled held rest a
  /-- A call that runs alone after it. -/
  alone : ∀ before after s' (op : Op) c' action',
    Server.Commit (workload S) init e before after s' →
    op.lifecycle? = some (c', action') → c'.idempotencyKey = c.idempotencyKey →
    (op.program S).exec Db.row s'.db = (replay c c' action action' r, s'.db)

/-- What a commit `e` of a promotion with the result `r` settles for the promotions with its key, in
every run that goes on from it. -/
structure PromotionKey (S : Settings) (init : Db → Prop) (s : Server Db RowKey Row Op Result)
    (e : Entry Op Result) (p : PromoteCall) (r : PromotionResult) : Prop where
  stored : e.result = .ok (.promotion r)
  created : r.created = true
  /-- It is the only commit with the key. -/
  once : ∀ e' ∈ s.history, ∀ p', e'.op = .promote p' →
    p'.idempotencyKey = p.idempotencyKey → e' = e
  commit : ∃ before after, Server.Commit (workload S) init e before after s
  /-- A promotion that begins after it. -/
  later : ∀ before after s' id progress p', Server.Commit (workload S) init e before after s' →
    before.calls.get id = none → s'.calls.get id = some ⟨.promote p', progress⟩ →
    p'.idempotencyKey = p.idempotencyKey →
    Answered S init s' id progress (· = replayPromotion p p' r)
  /-- A promotion that is running at it, wherever it is. -/
  running : ∀ before after s' id held rest progress p',
    Server.Commit (workload S) init e before after s' → id ≠ e.id →
    before.calls.get id = some ⟨.promote p', .running held rest⟩ →
    s'.calls.get id = some ⟨.promote p', progress⟩ → p'.idempotencyKey = p.idempotencyKey →
    Answered S init s' id progress fun a => a = replayPromotion p p' r ∨ Late p' a
  /-- A promotion that runs alone after it. -/
  alone : ∀ before after s' p', Server.Commit (workload S) init e before after s' →
    p'.idempotencyKey = p.idempotencyKey →
    (promote S p').exec Db.row s'.db = (replayPromotion p p' r, s'.db)

/-- Idempotency of the lifecycle and of promotions. -/
structure Idempotent (S : Settings) (init : Db → Prop)
    (s : Server Db RowKey Row Op Result) : Prop where
  lifecycle : ∀ e ∈ s.history, ∀ c action, e.op.lifecycle? = some (c, action) →
    ∃ r, LifecycleKey S init s e c action r
  promotion : ∀ e ∈ s.history, ∀ p, e.op = .promote p → ∃ r, PromotionKey S init s e p r

/-- In every run a commit is the only one with its key. A call with the key that begins afterwards
changes nothing and ends with the stored result when it is the same call, and with a conflict when
it is not; so does a call that is running at the commit, except that a lifecycle call may have
nothing left but its answer, and that a promotion which has looked for the key already may end with
another conflict or with an error of its own. They end so among any other calls, unless they are
lost, and they do end when they run alone. -/
theorem idempotent_of_every_run (hr : (Server.machine (workload S) init).Reachable s) :
    Idempotent S init s := by
  have hrecorded := recorded_reachable hr
  constructor
  · intro e he c action hop
    obtain ⟨r, reason, hresult, happlied, -⟩ := hrecorded.action e he c action hop
    refine ⟨r, ?_⟩
    constructor
    case stored => exact hresult
    case applied => exact happlied
    case once =>
      exact fun e' he' c' action' hop' hkey =>
        hrecorded.oneAction e' he' e he c' action' c action hop' hop hkey
    case commit => exact Server.commit_of_mem_history (meets S) hr he
    case later =>
      intro before after s' id op progress c' action' h hnew hc hop' hkey
      refine lifecycle_answered (Q := (· = replay c c' action action' r)) h hop
        hresult hop' hkey rfl
        (fun q hq => ?_) hc
      -- A call that begins later is none at the commit, so it does not wait for the lock.
      rw [h.others (ne_of_commit h hnew), hnew] at hq
      cases hq
    case running =>
      intro before after s' id op held rest progress c' action' h hid hcall hc hop' hkey
      refine lifecycle_answered h hop hresult hop' hkey (.inl rfl) (fun q hq => ?_) hc
      -- A running call waits for the key's lock, or has its answer already.
      rw [h.others hid, hcall] at hq
      obtain ⟨-, rfl⟩ := Call.mk.inj (Option.some.inj hq)
      refine ⟨held, rest, rfl, (awaits_commit h hop hid hcall hop' hkey).imp_right ?_⟩
      rintro ⟨a, hsettled⟩
      exact ⟨a, hsettled, .inr hsettled⟩
    case alone =>
      intro before after s' op c' action' h hop' hkey
      exact lifecycle_exec ((h.reachable.step h.step).leads h.leads)
        ((history_leads h.leads).subset h.recorded) hop hresult hop' hkey
  · intro e he p hop
    obtain ⟨r, new, -, hresult, hcreated, -⟩ := hrecorded.promotion e he p hop
    refine ⟨r, ?_⟩
    constructor
    case stored => exact hresult
    case created => exact hcreated
    case once =>
      exact fun e' he' p' hop' hkey => hrecorded.onePromotion e' he' e he p' p hop' hop hkey
    case commit => exact Server.commit_of_mem_history (meets S) hr he
    case later =>
      intro before after s' id progress p' h hnew hc hkey
      exact promotion_replayed h hop hresult hkey hnew hc
    case running =>
      intro before after s' id held rest progress p' h hid hcall hc hkey
      refine promotion_answered h hop hresult hkey (fun q hq => ?_) hc
      -- The call is where it was at the commit: before its first look, or after it.
      rw [h.others hid, hcall] at hq
      obtain ⟨-, rfl⟩ := Call.mk.inj (Option.some.inj hq)
      exact ⟨held, rest, rfl, looks_commit h hop hcall hkey⟩
    case alone =>
      intro before after s' p' h hkey
      obtain ⟨row, x, hrow, hx, hreplay⟩ := stored_promotion
        ((h.reachable.step h.step).leads h.leads) ((history_leads h.leads).subset h.recorded) hop
        hresult hkey
      obtain ⟨hanswer, hdb⟩ := (answers_lookup (p := p')).exec ⟨hrow, hx⟩
      exact Prod.ext (hanswer.trans hreplay) hdb

end Runs

namespace Sample

/-- A change of status with the key of the approval. -/
def rival : Op := .updateStatus (call "r") .inactive none

/-- A promotion of Task 8 with the key of the promotion of Task 7; Task 8 has not succeeded. -/
def ineligible : PromoteCall :=
  { promotion "p" with
    taskId := 8
    prepared := .error (.notPrepared "Only succeeded Tasks can be promoted") }

/-- It looks for the key before it is taken. -/
def overtaken : List (Server.Act Op) :=
  runs 2 (.promote ineligible) 1 ++ runs 1 (.promote (promotion "p")) 6 ++ [.next 2]

/-- A call is running, and more is left of it than its answer. -/
def pending (s : Server Db RowKey Row Op Result) (id : ℕ) (op : Op) : Bool :=
  match s.calls.get id with
  | some ⟨_, .running _ (.ret _)⟩ => false
  | some ⟨op', .running _ _⟩ => op' == op
  | _ => false

/-- A call that is pending has not ended. -/
theorem pending_eq_true {s : Server Db RowKey Row Op Result} {id : ℕ} {op : Op}
    (h : pending s id op = true) :
    ∃ held rest, s.calls.get id = some ⟨op, .running held rest⟩ ∧ ∀ a, rest ≠ .ret a := by
  unfold pending at h
  split at h
  · cases h
  · rename_i op' held rest hrest hc
    obtain rfl := beq_iff_eq.mp h
    exact ⟨held, rest, hc, fun a => hrest a⟩
  · cases h

end Sample

section

open Workflows.Sample

/-- A change of status with the key of the approval, running when the approval commits, ends with a
conflict, and the approval asked for again with the stored result. -/
theorem approval_answered : ∃ before after s,
    (server settings).run { db := {} } (approval.dropLast ++ [.begin 6 rival]) = some before ∧
    (server settings).step before (.next 3) = some after ∧
    (server settings).run after (List.replicate 3 (.next 6) ++ runs 9 approve 3) = some s ∧
    s.calls.get 6 = some ⟨rival, .ended
      (.error (.lifecycleConflict "Idempotency key payload mismatch"))⟩ ∧
    s.calls.get 9 = some ⟨approve, .ended (.ok (.action (approvedResult false)))⟩ := by
  have hrun : ((server settings).run { db := {} } (approval.dropLast ++ [.begin 6 rival])).any
      (fun before => (before.history.all fun e => e.id != 3) && pending before 6 rival &&
        (before.calls.get 9).isNone &&
        ((server settings).step before (.next 3)).any fun after =>
          (after.history.any fun e => e.id == 3 && e.op == approve &&
            e.result == .ok (.action (approvedResult true))) &&
          ((server settings).run after (List.replicate 3 (.next 6) ++ runs 9 approve 3)).any
            fun s => ((ended s 6).map Prod.fst == some rival) &&
              ((ended s 9).map Prod.fst == some approve)) = true := by
    decide +kernel
  -- The run is checked by evaluation, up to the commit and on from it.
  obtain ⟨before, hbefore, hrun⟩ := (Option.any_eq_true _ _).mp hrun
  simp only [Bool.and_eq_true, List.all_eq_true, bne_iff_ne, Option.isNone_iff_eq_none] at hrun
  obtain ⟨⟨⟨hfresh, hpending⟩, hnew⟩, hrun⟩ := hrun
  obtain ⟨after, hafter, hrun⟩ := (Option.any_eq_true _ _).mp hrun
  simp only [Bool.and_eq_true, List.any_eq_true, beq_iff_eq] at hrun
  obtain ⟨⟨e, he, ⟨hid, hop⟩, hresult⟩, hrun⟩ := hrun
  obtain ⟨s, hs, hrun⟩ := (Option.any_eq_true _ _).mp hrun
  simp only [Bool.and_eq_true, beq_iff_eq] at hrun
  obtain ⟨⟨⟨op, a⟩, ha, rfl⟩, ⟨op', a'⟩, ha', rfl⟩ :=
    hrun.imp Option.map_eq_some_iff.mp Option.map_eq_some_iff.mp
  have hr : (server settings).Reachable before :=
    Machine.Reachable.run (.start ⟨{}, Consistent.empty, rfl⟩) hbefore
  have hcommit : Server.Commit (workload settings) Consistent e before after s :=
    ⟨hr, hid ▸ hafter, .run hs, fun hin => hfresh e hin hid, he⟩
  obtain ⟨r, hkey⟩ := (idempotent_of_every_run (hr.step hafter)).lifecycle e he (call "r")
    .versionApproved (by rw [hop]; rfl)
  obtain rfl : approvedResult true = r := by
    simpa [hresult] using hkey.stored
  refine ⟨before, after, s, hbefore, hafter, hs, ?_, ?_⟩
  · -- The rival was running at the commit, and its answer is not a settled one.
    obtain ⟨held, rest, hcall, hrest⟩ := pending_eq_true hpending
    have hanswered := hkey.running before after s 6 rival held rest _ (call "r")
      .workflowDeactivated hcommit (by rw [hid]; decide) hcall (ended_eq_some ha) rfl rfl
    rcases hanswered.ended a rfl with rfl | hsettled
    · exact ended_eq_some ha
    · exact absurd hsettled.rest (hrest a)
  · -- The approval asked for again begins after the commit.
    have hanswered := hkey.later before after s 9 approve _ (call "r") .versionApproved hcommit hnew
      (ended_eq_some ha') rfl rfl
    obtain rfl := hanswered.ended a' rfl
    exact ended_eq_some ha'

/-- The promotion of Task 8, which has looked for the key before it was taken, ends after the commit
with the error of its source. -/
theorem promotion_overtaken : ¬ SamePromotion (promotion "p") ineligible ∧
    ((server settings).run { db := {} } overtaken.dropLast).map (fun s =>
      (ended s 1, ended s 2)) =
      some (some (.promote (promotion "p"), .ok (.promotion ⟨1, 11, 1, true, 1⟩)), none) ∧
    ((server settings).run { db := {} } overtaken).map (fun s => ended s 2) =
      some (some (.promote ineligible,
        .error (.notPrepared "Only succeeded Tasks can be promoted"))) := by
  decide +kernel

end

end ExAgent.Workflows
