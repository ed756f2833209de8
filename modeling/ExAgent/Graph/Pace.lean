import ExAgent.Graph.Guarantees
import ExAgent.Graph.Handover
import ExAgent.Graph.Kept

/-!
# The Steps of a Task keep pace with the results

In every run of the session graph, with arbitrary decisions, Executor results and crashes, each item
of a Task keeps pace with those before it (`pace_reachable`). What the Task's binding, its
correction counter and its journal say of the items depends on the node that is next (`Spot`):
nothing was sent before a submission, the binding is at the next Step while the Task waits, and
where a Step is appended the last item is a result.
-/

namespace ExAgent.Graph

open Lib Prog

/-! ## What holds at a node -/

/-- The Task has sent nothing. -/
structure Unsent (w : World) (wf : WorkflowState) : Prop where
  items : items wf.activeTaskId w.log = []
  bound : w.sequence? wf.activeTaskId = none
  count : wf.correctionCount.getD 0 = 0

/-- The Task waits for a result: its binding is at the next Step, and its failures are counted. -/
structure Awaiting (limit : ℕ) (w : World) (wf : WorkflowState) : Prop where
  bound : w.sequence? wf.activeTaskId = some (nextSequence (items wf.activeTaskId w.log))
  count : failures (items wf.activeTaskId w.log) = wf.correctionCount.getD 0
  limit : wf.correctionCount.getD 0 ≤ limit

/-- The Task may answer the result that is the last item. -/
structure Answering (limit : ℕ) (w : World) (wf : WorkflowState) : Prop extends
    Awaiting limit w wf where
  result : ∃ outcome, (items wf.activeTaskId w.log).getLast? = some (.result outcome)

/-- A result was reconciled, and a failure is not counted yet. -/
structure Reconciled (limit : ℕ) (w : World) (wf : WorkflowState) : Prop where
  bound : w.sequence? wf.activeTaskId = some (nextSequence (items wf.activeTaskId w.log))
  count : failures (items wf.activeTaskId w.log) =
    wf.correctionCount.getD 0 + if wf.outcome? = some .operationFailed then 1 else 0
  limit : wf.correctionCount.getD 0 ≤ limit
  result : ∀ outcome, wf.outcome? = some outcome → outcome.isOperation = true →
    (items wf.activeTaskId w.log).getLast? = some (.result outcome)

/-- A Step is to be handed over. -/
structure Facing (D : Deployment) (w : World) (wf : WorkflowState) (n : Node) : Prop where
  count : failures (items wf.activeTaskId w.log) = wf.correctionCount.getD 0
  limit : wf.correctionCount.getD 0 ≤ D.correctionLimit
  handing : ∀ key inputs, wf.handover? n = some (key, inputs) → Handing w wf.activeTaskId key
    (D.inputDigest inputs) (decide (n = .submitExecution)) (SubmitsFirst D wf n)
  matched : n = .submitExecution → wf.executionMode = some .multi → Matched w wf

/-- A plan is made, for a submission or to answer a result. -/
structure Planning (limit : ℕ) (w : World) (wf : WorkflowState) : Prop where
  unsent : wf.executionId = none → Unsent w wf
  answering : wf.executionId ≠ none → Answering limit w wf

/-- What a node has to do with the items. -/
inductive Role
  /-- Before a submission or an append. -/
  | planning
  | handing
  /-- The nodes that wait for the Executor, or call it without a Step. -/
  | waiting
  | recording
  | adapting
  | closing
deriving DecidableEq

/-- The role of a node. -/
def Node.role : Node → Role
  | .hydrateTurn | .classifyIntent | .clarifyRequest | .chooseExecutionMode | .reviewRequestRisk
  | .confirmRequestRisk | .searchWorkflows | .chooseWorkflow | .loadSelectedWorkflow | .buildPlan
  | .compileAndPersistPlan | .reviewCompiledCodeRisk | .reviewPlan | .verifyApproval => .planning
  | .submitExecution | .appendOperation => .handing
  | .registerExecution | .waitExternalSignal | .reconcileExecutor | .finalizeExecution
  | .cancelExecution => .waiting
  | .recordEventReceipt => .recording
  | .adaptMultiPlan => .adapting
  | .beginTask | .answerGeneral | .answerDataQuestion | .commitAnswer | .buildReportEvidence
  | .generateReport | .commitSuccess | .commitRejected | .commitBlocked | .commitFailed
  | .commitCancelled => .closing

/-- What the tables and the workflow say of the items before a node, by its role. -/
def Role.Asks (D : Deployment) (w : World) (wf : WorkflowState) (n : Node) : Role → Prop
  | .planning => Planning D.correctionLimit w wf
  | .handing => Facing D w wf n
  | .waiting => Awaiting D.correctionLimit w wf
  | .recording => Reconciled D.correctionLimit w wf
  | .adapting => Reconciled D.correctionLimit w wf ∧
      ∃ outcome, wf.outcome? = some outcome ∧ outcome.isOperation = true
  | .closing => True

/-- What holds before a node. -/
def Spot (D : Deployment) (w : World) (wf : WorkflowState) (n : Node) : Prop := n.role.Asks D w wf n

/-- The items of the Tasks, at a checkpoint. -/
structure Pace (D : Deployment) (w : World) (s : SessionState) (next : Option Node) : Prop where
  each : ∀ id, Each (Paced D.correctionLimit) (items id w.log)
  fresh : ∀ id, s.taskRequests id = none → items id w.log = []
  spot : ∀ n wf, next = some n → s.workflow = some wf → Spot D w wf n

section

variable {D : Deployment} {config : Config} {svc : Services} {w w' w₀ : World} {s s' : SessionState}
  {wf wf' : WorkflowState} {n m : Node} {next : Option Node} {limit : ℕ}

/-! ## Idle commits -/

/-- The same items and the same sequence in the binding. -/
structure SameItems (w w' : World) (taskId : Uuid) : Prop where
  items : items taskId w'.log = items taskId w.log
  bound : w'.sequence? taskId = w.sequence? taskId

/-- Idle commits keep the items of every Task. -/
theorem Idle.sameItems (h : Idle w w') (id : Uuid) : SameItems w w' id :=
  ⟨h.items id, h.bindings id⟩

/-- A Task that has sent nothing goes on so over the same items. -/
theorem Unsent.same (h : Unsent w wf) (hw : SameItems w w' wf.activeTaskId)
    (htask : wf'.activeTaskId = wf.activeTaskId)
    (hcount : wf'.correctionCount.getD 0 = wf.correctionCount.getD 0) : Unsent w' wf' := by
  refine ⟨?_, ?_, hcount.trans h.count⟩
  · rw [htask, hw.items]
    exact h.items
  · rw [htask, hw.bound]
    exact h.bound

/-- A Task that waits for a result goes on so over the same items. -/
theorem Awaiting.same (h : Awaiting limit w wf) (hw : SameItems w w' wf.activeTaskId)
    (htask : wf'.activeTaskId = wf.activeTaskId)
    (hcount : wf'.correctionCount.getD 0 = wf.correctionCount.getD 0) : Awaiting limit w' wf' := by
  refine ⟨?_, ?_, hcount.trans_le h.limit⟩
  · rw [htask, hw.items, hw.bound]
    exact h.bound
  · rw [htask, hw.items, hcount]
    exact h.count

/-- A Task that may answer a result goes on so over the same items. -/
theorem Answering.same (h : Answering limit w wf) (hw : SameItems w w' wf.activeTaskId)
    (htask : wf'.activeTaskId = wf.activeTaskId)
    (hcount : wf'.correctionCount.getD 0 = wf.correctionCount.getD 0) : Answering limit w' wf' := by
  refine ⟨h.toAwaiting.same hw htask hcount, ?_⟩
  rw [htask, hw.items]
  exact h.result

/-- A Task with a reconciled result goes on so over the same items and outcome. -/
theorem Reconciled.same (h : Reconciled limit w wf) (hw : SameItems w w' wf.activeTaskId)
    (htask : wf'.activeTaskId = wf.activeTaskId)
    (hcount : wf'.correctionCount.getD 0 = wf.correctionCount.getD 0)
    (houtcome : wf'.outcome? = wf.outcome?) : Reconciled limit w' wf' := by
  refine ⟨?_, ?_, hcount.trans_le h.limit, ?_⟩
  · rw [htask, hw.items, hw.bound]
    exact h.bound
  · rw [htask, hw.items, hcount, houtcome]
    exact h.count
  · rw [htask, hw.items, houtcome]
    exact h.result

/-- What holds at a node that faces the Executor is kept by idle commits. -/
theorem Facing.idle (h : Facing D w wf n) (hi : Idle w w') : Facing D w' wf n := by
  refine ⟨by rw [hi.items]; exact h.count, h.limit, fun key inputs hkey => ?_, fun hn hm => ?_⟩
  swap
  · obtain ⟨p, r, hp, hr, hplan⟩ := h.matched hn hm
    exact ⟨p, r, hp, hi.revisions _ _ hr, hplan⟩
  have hstarts : key.startsOperation = true := by
    unfold WorkflowState.handover? at hkey
    split at hkey
    · simp only [bind, Option.bind_eq_some_iff] at hkey
      obtain ⟨_, -, _, -, _, -, heq⟩ := hkey
      obtain ⟨rfl, -⟩ := Prod.mk.inj (Option.some.inj heq)
      rfl
    · simp only [bind, Option.bind_eq_some_iff] at hkey
      obtain ⟨_, -, _, -, _, -, _, -, _, -, heq⟩ := hkey
      obtain ⟨rfl, -⟩ := Prod.mk.inj (Option.some.inj heq)
      rfl
    · exact absurd hkey (by simp)
  exact (h.handing key inputs hkey).idle hstarts hi

/-- What holds at a node, by its role. -/
theorem spot_of_role {role : Role} (hrole : n.role = role) :
    Spot D w wf n ↔ role.Asks D w wf n := by
  subst hrole
  exact Iff.rfl

/-- What holds at a node outlives idle commits. -/
theorem Spot.idle (h : Spot D w wf n) (hi : Idle w w') : Spot D w' wf n := by
  unfold Spot at h ⊢
  cases hrole : n.role with
  | planning =>
    rw [hrole] at h
    exact ⟨fun hx => (h.unsent hx).same (hi.sameItems _) rfl rfl,
      fun hx => (h.answering hx).same (hi.sameItems _) rfl rfl⟩
  | handing =>
    rw [hrole] at h
    exact Facing.idle h hi
  | waiting =>
    rw [hrole] at h
    exact Awaiting.same h (hi.sameItems _) rfl rfl
  | recording =>
    rw [hrole] at h
    exact Reconciled.same h (hi.sameItems _) rfl rfl rfl
  | adapting =>
    rw [hrole] at h
    exact ⟨h.1.same (hi.sameItems _) rfl rfl rfl, h.2⟩
  | closing => trivial

/-- The pace of a Task is kept by idle commits. -/
theorem Pace.idle (h : Pace D w s next) (hi : Idle w w') : Pace D w' s next where
  each id := by rw [hi.items]; exact h.each id
  fresh id hid := (hi.items id).trans (h.fresh id hid)
  spot n wf hn hwf := (h.spot n wf hn hwf).idle hi

/-! ## A completed node -/

/-- The items of a completed node. -/
theorem items_ran {id : Uuid} {log : List Event} (h : s'.workflow = some wf') :
    items id (log ++ [.ran n svc s s']) = items id log ++ (resultItem id n wf').toList := by
  have hitem : (Event.ran n svc s s').item? id = resultItem id n wf' := by
    simp [Event.item?, h]
  cases hr : resultItem id n wf' with
  | none => simpa using items_concat_none (hitem.trans hr)
  | some item => exact items_concat_some (hitem.trans hr)

/-- Only `reconcile_executor` has one, of the active Task. -/
theorem resultItem_none {id : Uuid} (h : n ≠ .reconcileExecutor ∨ wf'.activeTaskId ≠ id) :
    resultItem id n wf' = none := by
  unfold resultItem
  exact if_neg fun hboth => h.elim (fun hn => hn hboth.1) fun hid => hid hboth.2

/-- Reconciliation adds the result of an Operation as an item, and nothing for another outcome. -/
theorem resultItem_reconcile : resultItem wf'.activeTaskId .reconcileExecutor wf' =
    (wf'.outcome?.filter ExecutorOutcome.isOperation).map .result := by
  unfold resultItem
  exact if_pos ⟨rfl, rfl⟩

/-- A run of another node, or for another Task, adds no item of this Task. -/
theorem sameItems_ran {id : Uuid} (h : s'.workflow = some wf')
    (hn : n ≠ .reconcileExecutor ∨ wf'.activeTaskId ≠ id) :
    SameItems w (w.logged (.ran n svc s s')) id := by
  refine ⟨?_, rfl⟩
  show items id (w.log ++ [.ran n svc s s']) = items id w.log
  rw [items_ran h, resultItem_none hn]
  exact List.append_nil _

/-- The item of a completed node is a result. -/
theorem each_ran {id : Uuid} (h : s'.workflow = some wf')
    (hl : Each (Paced limit) (items id w.log)) :
    Each (Paced limit) (items id (w.logged (.ran n svc s s')).log) := by
  show Each (Paced limit) (items id (w.log ++ [.ran n svc s s']))
  rw [items_ran h]
  unfold resultItem
  split
  · cases wf'.outcome?.filter ExecutorOutcome.isOperation with
    | none => simpa using hl
    | some outcome => exact hl.concat trivial
  · simpa using hl

/-- The items of a completed node, if the node that follows has what it needs. -/
theorem Pace.ran (h : Pace D w s (some n)) (hst : SameTask s s' wf wf')
    (hadmitted : s.taskRequests wf.activeTaskId ≠ none)
    (hspot : ∀ m, next = some m → Spot D (w.logged (.ran n svc s s')) wf' m) :
    Pace D (w.logged (.ran n svc s s')) s' next where
  each id := each_ran hst.after (h.each id)
  fresh id hid := by
    rw [hst.requests] at hid
    have hother : wf'.activeTaskId ≠ id := by
      rw [hst.task]
      rintro rfl
      exact hadmitted hid
    exact (sameItems_ran hst.after (.inr hother)).items.trans (h.fresh id hid)
  spot m wf₀ hm hwf₀ := by
    obtain rfl : wf' = wf₀ := Option.some.inj (hst.after.symm.trans hwf₀)
    exact hspot m hm

/-! ## From a node to the next -/

/-- No stored effect has the inputs of an append that is still to be prepared: the rows of earlier
ones have another revision. -/
theorem no_append_row {key : EffectKey} {inputs : EffectInputs} {row : EffectRow}
    (htells : D.TellsRevision) (ht : TaskInv D w₀ wf n) (hn : n ≠ .appendOperation)
    (heffects : ∀ key : EffectKey, key.startsOperation = true →
      w.effects.get key = w₀.effects.get key)
    (htask : wf'.activeTaskId = wf.activeTaskId) (hp : wf'.persisted = wf.persisted)
    (hkey : wf'.handover? .appendOperation = some (key, inputs)) :
    ¬w.Holds key (D.inputDigest inputs) row := by
  rintro ⟨hrow, hsha⟩
  simp only [WorkflowState.handover?, bind, Option.bind_eq_some_iff] at hkey
  obtain ⟨plan, -, op, -, x, -, p, hpersisted, d, -, heq⟩ := hkey
  obtain ⟨rfl, rfl⟩ := Prod.mk.inj (Option.some.inj heq)
  rw [heffects _ rfl, htask] at hrow
  obtain ⟨x', op', revisionId, plan', d', hsha', hcase⟩ := ht.appends op row hrow
  obtain rfl : p.planRevisionId = revisionId := htells (hsha.symm.trans hsha')
  rw [hp] at hpersisted
  rcases hcase with ⟨r, hr, -, hlt⟩ | ⟨happend, -⟩
  · obtain ⟨r₀, hr₀, hplan, -⟩ := ht.current p hpersisted
    obtain rfl : r = r₀ := Option.some.inj (hr.symm.trans hr₀)
    have hnumber : p.planRevisionNumber = r.revisionNumber := congrArg _ hplan
    have hcurrent : wf.revisionNumber = p.planRevisionNumber := by
      unfold WorkflowState.revisionNumber
      rw [hpersisted]
      rfl
    omega
  · exact hn happend

/-- An append answers the result that is the last item. -/
theorem Answering.facing (h : Answering D.correctionLimit w wf')
    (hrow : ∀ key inputs row, wf'.handover? .appendOperation = some (key, inputs) →
      ¬w.Holds key (D.inputDigest inputs) row) : Facing D w wf' .appendOperation :=
  ⟨h.count, h.limit, fun key inputs hkey =>
    .unsent ⟨h.result, h.bound⟩ fun row hholds => absurd hholds (hrow key inputs row hkey),
    fun hn => absurd hn (by decide)⟩

/-- A submission is the first item. -/
theorem Unsent.facing (h : Unsent w wf') (hrow : ∀ key inputs row,
      wf'.handover? .submitExecution = some (key, inputs) →
      ¬w.Holds key (D.inputDigest inputs) row)
    (hmatch : wf'.executionMode = some .multi → Matched w wf') :
    Facing D w wf' .submitExecution := by
  refine ⟨?_, h.count.trans_le (Nat.zero_le _), fun key inputs hkey =>
    .unsent ⟨h.items, h.bound⟩ fun row hholds => absurd hholds (hrow key inputs row hkey),
    fun _ => hmatch⟩
  rw [h.items, h.count]
  rfl

/-- What can follow a planning node. -/
theorem planning_successors (n : Node) (hn : n.role = .planning) : ∀ m ∈ n.successors,
    m.role = .planning ∨ m.role = .closing ∨
      (n = .verifyApproval ∧ (m = .submitExecution ∨ m = .appendOperation)) := by
  revert hn
  cases n <;> decide

/-- A node of the waiting role leads to nodes of that role only, reconciliation aside. -/
theorem waiting_successors (n : Node) (hn : n.role = .waiting) (hne : n ≠ .reconcileExecutor) :
    ∀ m ∈ n.successors, m.role = .waiting := by
  revert hn hne
  cases n <;> decide

/-- Only reports and terminal commits follow them. -/
theorem closing_successors (n : Node) (hn : n.role = .closing) (hne : n ≠ .beginTask) :
    ∀ m ∈ n.successors, m.role = .closing := by
  revert hn hne
  cases n <;> decide

/-- A run of a planning node keeps the pace: nothing is sent, and the next node finds what it asks
for. -/
theorem spot_planning (htells : D.TellsRevision) (hn : n.role = .planning) (ht : TaskInv D w₀ wf n)
    (hi : Idle w₀ w) (h : Spot D w₀ wf n) (hch : Changes D svc n wf wf')
    (hst : SameTask s s' wf wf')
    (hnext : successor n s' = .ok (some m)) : Spot D (w.logged (.ran n svc s s')) wf' m := by
  have hplan : Planning D.correctionLimit w wf := (spot_of_role hn).mp (h.idle hi)
  have hne : ∀ n', n'.role ≠ .planning → n ≠ n' := by
    rintro n' hn' rfl
    exact hn' hn
  have hsame : SameItems w (w.logged (.ran n svc s s')) wf.activeTaskId :=
    sameItems_ran hst.after (.inl (hne _ (by decide)))
  have hx : wf'.executionId = wf.executionId := hch.execution (hne _ (by decide))
  -- `hydrate_turn` starts the counter of a Task that has none.
  have hcount : wf'.correctionCount.getD 0 = wf.correctionCount.getD 0 := by
    by_cases hhydrate : n = .hydrateTurn
    · have hnone : wf.executionId = none := by
        subst hhydrate
        have hstage : NoPlan wf ∧ _ := ht.stage
        exact hstage.1.executionId
      rw [hch.hydrated hhydrate, (hplan.unsent hnone).count]
      rfl
    · rw [hch.count]
      simpa using ⟨hhydrate, hne _ (by decide)⟩
  have hplan' : Planning D.correctionLimit (w.logged (.ran n svc s s')) wf' :=
    ⟨fun hnone => (hplan.unsent (hx.symm.trans hnone)).same hsame hst.task hcount,
      fun hsome => (hplan.answering fun hnone => hsome (hx.trans hnone)).same hsame hst.task hcount⟩
  have heffects : ∀ key : EffectKey, key.startsOperation = true →
      (w.logged (.ran n svc s s')).effects.get key = w₀.effects.get key := hi.effects
  rcases planning_successors n hn m (mem_successors hnext) with hm | hm | ⟨rfl, rfl | rfl⟩
  · exact (spot_of_role hm).mpr hplan'
  · exact (spot_of_role hm).mpr trivial
  · have hnone : wf'.executionId = none := by
      have hroute := Except.ok.inj (hst.route rfl hnext)
      cases hx' : wf'.executionId with
      | none => rfl
      | some x => simp [hx'] at hroute
    refine (hplan'.unsent hnone).facing (fun key inputs row hkey hholds => ?_) fun hmulti => ?_
    · simp only [WorkflowState.handover?, bind, Option.bind_eq_some_iff] at hkey
      obtain ⟨plan, -, p, -, mode, -, heq⟩ := hkey
      obtain ⟨rfl, rfl⟩ := Prod.mk.inj (Option.some.inj heq)
      have hrow := hholds.1
      rw [heffects _ rfl, hst.task] at hrow
      exact absurd (ht.submits (hx.symm.trans hnone) _ row hrow).1 (by decide)
    · -- Only a fixed workflow has a plan of its own, and it is not MULTI.
      obtain ⟨-, hsingle, ⟨p, r, hp, hr, hplan⟩, -⟩ : _ ∧ FixedSingle wf ∧
          Matching w₀ wf ∧ _ := ht.stage
      have hmode : wf.executionMode = some .multi := (hch.mode (by decide)).symm.trans hmulti
      have hkind : wf.planningKind ≠ some .fixedWorkflow := by
        intro hkind
        exact absurd (hmode.symm.trans (hsingle hkind)) (by decide)
      obtain ⟨r', hr', -, htask⟩ := ht.current p hp
      obtain rfl : r = r' := Option.some.inj (hr.symm.trans hr')
      exact ⟨p, r, (hch.persisted rfl).trans hp, hi.revisions _ _ hr, htask.trans hst.task.symm,
        (hch.plan (by decide)).trans (hplan hkind)⟩
  · have hsome : wf'.executionId ≠ none := by
      have hroute := Except.ok.inj (hst.route rfl hnext)
      intro hnone
      simp [hnone] at hroute
    exact (hplan'.answering hsome).facing fun key inputs row hkey =>
      no_append_row htells ht (by decide) heffects hst.task (hch.persisted rfl) hkey

/-- A run of a waiting node keeps the pace: the binding stays at the next Step. -/
theorem spot_waiting (hn : n.role = .waiting) (hne : n ≠ .reconcileExecutor) (hi : Idle w₀ w)
    (h : Spot D w₀ wf n) (hch : Changes D svc n wf wf') (hst : SameTask s s' wf wf')
    (hnext : successor n s' = .ok (some m)) : Spot D (w.logged (.ran n svc s s')) wf' m := by
  have hwait : Awaiting D.correctionLimit w wf := (spot_of_role hn).mp (h.idle hi)
  have hcount : wf'.correctionCount = wf.correctionCount := by
    apply hch.count
    cases n <;> first | decide | exact absurd hn (by decide)
  have hwait' : Awaiting D.correctionLimit (w.logged (.ran n svc s s')) wf' :=
    hwait.same (sameItems_ran hst.after (.inl hne)) hst.task (by rw [hcount])
  exact (spot_of_role (waiting_successors n hn hne m (mem_successors hnext))).mpr hwait'

/-- A reconciled result is the last item. -/
theorem spot_reconcile (hi : Idle w₀ w) (h : Spot D w₀ wf .reconcileExecutor)
    (hch : Changes D svc .reconcileExecutor wf wf') (hst : SameTask s s' wf wf')
    (hnext : successor .reconcileExecutor s' = .ok (some m)) :
    Spot D (w.logged (.ran .reconcileExecutor svc s s')) wf' m := by
  have hwait : Awaiting D.correctionLimit w wf := h.idle hi
  obtain rfl : .recordEventReceipt = m := Option.some.inj (edge_of_successor rfl hnext)
  have hcount : wf'.correctionCount = wf.correctionCount := hch.count (by decide)
  have hitems : items wf'.activeTaskId (w.logged (.ran .reconcileExecutor svc s s')).log =
      items wf.activeTaskId w.log ++
        ((wf'.outcome?.filter ExecutorOutcome.isOperation).map .result).toList := by
    show items _ (w.log ++ [.ran .reconcileExecutor svc s s']) = _
    rw [items_ran hst.after, resultItem_reconcile, hst.task]
  have hbound : (w.logged (.ran .reconcileExecutor svc s s')).sequence? wf'.activeTaskId =
      w.sequence? wf.activeTaskId := by
    rw [hst.task]
    rfl
  show Reconciled D.correctionLimit _ wf'
  refine ⟨?_, ?_, ?_, fun outcome ho hop => ?_⟩
  · rw [hbound, hitems, hwait.bound]
    cases wf'.outcome?.filter ExecutorOutcome.isOperation with
    | none => simp
    | some outcome => simp [nextSequence_concat_result]
  · rw [hitems, hcount]
    cases ho : wf'.outcome? with
    | none => simpa using hwait.count
    | some outcome =>
      cases outcome <;>
        simp [Option.filter, ExecutorOutcome.isOperation, failures_concat_result, hwait.count]
  · rw [hcount]
    exact hwait.limit
  · rw [hitems, ho]
    simp [Option.filter, hop]

/-- A recorded receipt keeps the pace. -/
theorem spot_record (hi : Idle w₀ w) (h : Spot D w₀ wf .recordEventReceipt)
    (hch : Changes D svc .recordEventReceipt wf wf') (hst : SameTask s s' wf wf')
    (hnext : successor .recordEventReceipt s' = .ok (some m)) :
    Spot D (w.logged (.ran .recordEventReceipt svc s s')) wf' m := by
  have hrec : Reconciled D.correctionLimit w wf := h.idle hi
  have hrec' : Reconciled D.correctionLimit (w.logged (.ran .recordEventReceipt svc s s')) wf' :=
    hrec.same (sameItems_ran hst.after (.inl (by decide))) hst.task
      (by rw [hch.count (by decide)]) (hch.outcome (by decide))
  have hroute := hst.route rfl hnext
  cases hr : wf'.executorReconciliation with
  | none =>
    unfold routeReconciliation at hroute
    rw [hr] at hroute
    exact absurd hroute (by simp [routeKey, bind, Except.bind])
  | some rec =>
    have houtcome : wf'.outcome? = some rec.outcome := by simp [WorkflowState.outcome?, hr]
    rcases routeReconciliation_cases hr hroute with
      ⟨ho, rfl⟩ | ⟨-, rfl⟩ | ⟨-, rfl⟩ | ⟨⟨-, ho⟩, rfl⟩ | ⟨rfl, -⟩
    · refine ⟨hrec'.bound, ?_, hrec'.limit⟩
      have hcount := hrec'.count
      rw [houtcome, ho] at hcount
      simpa using hcount
    · trivial
    · trivial
    · refine ⟨hrec', rec.outcome, houtcome, ?_⟩
      rcases ho with ho | ho <;> rw [ho] <;> rfl
    · trivial

/-- Unless the corrections are used up, a failure that is answered is counted within the limit. -/
theorem spot_adapt (htells : D.TellsRevision)
    (ht : TaskInv D w₀ wf .adaptMultiPlan) (hi : Idle w₀ w)
    (h : Spot D w₀ wf .adaptMultiPlan) (hch : Changes D svc .adaptMultiPlan wf wf')
    (hst : SameTask s s' wf wf') (hnext : successor .adaptMultiPlan s' = .ok (some m)) :
    Spot D (w.logged (.ran .adaptMultiPlan svc s s')) wf' m := by
  obtain ⟨hrec, outcome, houtcome, hop⟩ :
      Reconciled D.correctionLimit w wf ∧ ∃ outcome, wf.outcome? = some outcome ∧ _ := h.idle hi
  obtain ⟨decision, hadapts⟩ := hch.adapted rfl
  obtain ⟨hin, -⟩ : InExecution w₀ wf ∧ _ := ht.stage
  have hx : wf'.executionId ≠ none := by
    rw [hch.execution (by decide)]
    exact hin.submitted
  have hsame : SameItems w (w.logged (.ran .adaptMultiPlan svc s s')) wf.activeTaskId :=
    sameItems_ran hst.after (.inl (by decide))
  -- What may follow but a failure.
  have hanswer : decision.action ≠ .fail →
      Answering D.correctionLimit (w.logged (.ran .adaptMultiPlan svc s s')) wf' := by
    intro hfail
    have hspent : ¬CorrectionsSpent D wf := fun hspent => hfail (hadapts.spent hspent)
    have hcount : wf'.correctionCount.getD 0 =
        wf.correctionCount.getD 0 + if wf.outcome? = some .operationFailed then 1 else 0 := by
      rw [hadapts.count]
      split <;> rfl
    refine ⟨⟨?_, ?_, ?_⟩, outcome, ?_⟩
    · rw [hst.task, hsame.items, hsame.bound]
      exact hrec.bound
    · rw [hst.task, hsame.items, hcount]
      exact hrec.count
    · rw [hcount]
      split
      · rename_i hfailed
        have hlt : ¬D.correctionLimit ≤ wf.correctionCount.getD 0 :=
          fun hle => hspent ⟨hfailed, hle⟩
        omega
      · exact hrec.limit
    · rw [hst.task, hsame.items]
      exact hrec.result outcome houtcome hop
  have hroute := hst.route rfl hnext
  unfold routeMultiAction at hroute
  rw [hadapts.action] at hroute
  cases haction : decision.action with
  | appendStep =>
    rw [haction] at hroute hanswer
    obtain rfl : .appendOperation = m := Except.ok.inj hroute
    exact (hanswer (by decide)).facing fun key inputs row hkey =>
      no_append_row htells ht (by decide) hi.effects hst.task hadapts.persisted hkey
  | requireReapproval =>
    rw [haction] at hroute hanswer
    obtain rfl : .compileAndPersistPlan = m := Except.ok.inj hroute
    exact ⟨fun hnone => absurd hnone hx, fun _ => hanswer (by decide)⟩
  | finalize =>
    rw [haction] at hroute hanswer
    obtain rfl : .finalizeExecution = m := Except.ok.inj hroute
    exact (hanswer (by decide)).toAwaiting
  | fail =>
    rw [haction] at hroute
    obtain rfl : .commitFailed = m := Except.ok.inj hroute
    trivial

/-- The node that follows one that handed no Step over. -/
theorem spot_idle (htells : D.TellsRevision)
    (hn : n ∉ [.beginTask, .submitExecution, .appendOperation])
    (ht : TaskInv D w₀ wf n) (hi : Idle w₀ w) (h : Spot D w₀ wf n) (hch : Changes D svc n wf wf')
    (hst : SameTask s s' wf wf') (hnext : successor n s' = .ok (some m)) :
    Spot D (w.logged (.ran n svc s s')) wf' m := by
  cases hrole : n.role with
  | planning => exact spot_planning htells hrole ht hi h hch hst hnext
  | handing =>
    refine absurd ?_ hn
    cases n <;> first | exact absurd hrole (by decide) | decide
  | waiting =>
    by_cases hrec : n = .reconcileExecutor
    · subst hrec
      exact spot_reconcile hi h hch hst hnext
    · exact spot_waiting hrole hrec hi h hch hst hnext
  | recording =>
    obtain rfl : n = .recordEventReceipt := by
      cases n <;> first | rfl | exact absurd hrole (by decide)
    exact spot_record hi h hch hst hnext
  | adapting =>
    obtain rfl : n = .adaptMultiPlan := by
      cases n <;> first | rfl | exact absurd hrole (by decide)
    exact spot_adapt htells ht hi h hch hst hnext
  | closing =>
    have hne : n ≠ .beginTask := by
      rintro rfl
      exact hn (by decide)
    exact (spot_of_role (closing_successors n hrole hne m (mem_successors hnext))).mpr trivial

/-! ## Every run -/

/-- The invariant of a node that hands its Steps over, read at its commits. -/
theorem Pace.of_between (h : Pace D w₀ s (some n))
    (hn : n = .submitExecution ∨ n = .appendOperation)
    (hwf : s.workflow = some wf) (hadmitted : s.taskRequests wf.activeTaskId ≠ none)
    (hb : Between D D.correctionLimit wf n w₀ w) : Pace D w s (some n) where
  each id := by
    by_cases hid : id = wf.activeTaskId
    · rw [hid]
      exact hb.paces.each
    · rw [hb.paces.others id hid]
      exact h.each id
  fresh id hid := by
    have hother : id ≠ wf.activeTaskId := by
      rintro rfl
      exact hadmitted hid
    exact (hb.paces.others id hother).trans (h.fresh id hid)
  spot n' wf' hn' hwf' := by
    obtain rfl : n = n' := Option.some.inj hn'
    obtain rfl : wf = wf' := Option.some.inj (hwf.symm.trans hwf')
    have hrole : n.role = .handing := by rcases hn with rfl | rfl <;> rfl
    have hfacing : Facing D w₀ wf n := (spot_of_role hrole).mp (h.spot n wf rfl hwf)
    refine (spot_of_role hrole).mpr ⟨hb.paces.failures.trans hfacing.count,
      hfacing.limit, hb.handing, fun hsubmit hmulti => ?_⟩
    have hrevisions := hb.paces.revisions (by simp [hsubmit])
    obtain ⟨p, r, hp, hr, hplan⟩ := hfacing.matched hsubmit hmulti
    exact ⟨p, r, hp, hrevisions.symm ▸ hr, hplan⟩

/-- The Task waits for the result of what it handed over. -/
theorem Facing.awaiting {record : EffectRow} {receipt : SubmissionReceipt} (h : Facing D w₀ wf n)
    (hb : Between D D.correctionLimit wf n w₀ w) (hhanded : Handed D wf n record receipt w) :
    Awaiting D.correctionLimit w wf :=
  ⟨hhanded.bound, hb.paces.failures.trans h.count, h.limit⟩

/-- A new Task has nothing behind it. -/
theorem Inv.unbound {rs : List NodeRun} {id : Uuid} (h : Inv D rs w s next)
    (hid : s.taskRequests id = none) : w.sequence? id = none := by
  unfold World.sequence?
  cases hb : w.bindings.get id with
  | none => rfl
  | some b =>
    obtain ⟨t, ht, hexec⟩ := h.bindings id b hb
    exact absurd (hexec.symm.trans ((h.fresh id hid).task t ht)) (by simp)

/-- A new Task starts without items. -/
theorem Pace.begun {rs : List NodeRun} {turn : TaskTurn} {updated : SessionState}
    (h : Pace D w s (some .beginTask)) (hinv : Inv D rs w s (some .beginTask))
    (hbegins : Begins s turn updated) (hcore : SameCore updated s')
    (hnext : next = some .hydrateTurn) : Pace D (w.logged (.ran .beginTask svc s s')) s' next := by
  subst hnext
  have hwf : s'.workflow = some (.ofTurn turn) := hcore.workflow.trans hbegins.workflow
  have hsame : ∀ id, SameItems w (w.logged (.ran .beginTask svc s s')) id := fun id =>
    sameItems_ran hwf (.inl (by decide))
  refine ⟨fun id => each_ran hwf (h.each id), fun id hid => ?_, fun n wf hn hwf' => ?_⟩
  · obtain ⟨fingerprint, hrequests⟩ := hbegins.requests
    rw [hcore.requests, hrequests] at hid
    have hne : id ≠ turn.activeTaskId := by
      rintro rfl
      simp at hid
    rw [Function.update_of_ne hne] at hid
    exact (hsame id).items.trans (h.fresh id hid)
  · obtain rfl := Option.some.inj hn
    obtain rfl := Option.some.inj (hwf.symm.trans hwf')
    refine ⟨fun _ => ⟨?_, ?_, rfl⟩, fun hsome => absurd rfl hsome⟩
    · exact (hsame _).items.trans (h.fresh _ hbegins.new)
    · exact (hsame _).bound.trans (hinv.unbound hbegins.new)

/-- What a node leaves wherever it stops, and when it completes. -/
theorem superstep_pace {rs : List NodeRun} (config : Config) (svc : Services)
    (htells : D.TellsRevision) (hinv : Inv D rs w₀ s (some n)) (h : Pace D w₀ s (some n)) :
    Triple (fun w => w = w₀) (superstep D config svc n s)
      (fun r w => Pace D (w.logged (.ran n svc s r.1)) r.1 r.2) (fun w => Pace D w s (some n)) := by
  by_cases hbegin : n = .beginTask
  · subst hbegin
    refine (superstep_begin (I := fun w => w = w₀)).weaken (fun _ h => h) (fun r w hr => ?_) ?_
    · obtain ⟨⟨⟨turn, updated, hbegins, hcore⟩, hnext⟩, rfl⟩ := hr
      exact h.begun hinv hbegins hcore hnext
    · rintro w rfl
      exact h
  · obtain ⟨wf, hwf, ht⟩ := hinv.task n rfl hbegin
    obtain ⟨-, hadmitted, hx⟩ := hinv.owner wf hwf
    have hspot := h.spot n wf rfl hwf
    -- The two nodes that hand Steps over wait behind them; all others leave the pace as it is.
    by_cases hn : n = .submitExecution ∨ n = .appendOperation
    · have hrole : n.role = .handing := by rcases hn with rfl | rfl <;> rfl
      have hfacing : Facing D w₀ wf n := (spot_of_role hrole).mp hspot
      have hlimit : failures (items wf.activeTaskId w₀.log) ≤ D.correctionLimit :=
        hfacing.count.trans_le hfacing.limit
      refine (superstep_handing hn hwf hlimit (fun id r hr => (hinv.revisions id r hr).1)
        hfacing.matched).weaken ?_ (fun r w hr => ?_) fun w hb => h.of_between hn hwf hadmitted hb
      · rintro w rfl
        exact ⟨.refl (h.each _), hfacing.handing⟩
      · obtain ⟨⟨wf', hst, ⟨record, receipt, hhanded⟩, hnext⟩, hb⟩ := hr
        refine (h.of_between hn hwf hadmitted hb).ran hst hadmitted fun m hm => ?_
        rw [hm] at hnext
        have hwait : m.role = .waiting := by
          rcases hn with rfl | rfl <;>
            exact Option.some.inj (edge_of_successor rfl hnext) ▸ rfl
        refine (spot_of_role hwait).mpr ((hfacing.awaiting hb hhanded.toHanded).same
          (sameItems_ran hst.after (.inl ?_)) hst.task (by rw [hhanded.count]))
        rcases hn with rfl | rfl <;> decide
    · have hidle : n ∉ [.beginTask, .submitExecution, .appendOperation] := by
        simp only [List.mem_cons, List.not_mem_nil, or_false]
        exact fun hmem => hmem.elim hbegin hn
      refine (superstep_idle hinv.plain hidle hwf hx).weaken ?_ (fun r w hr => ?_)
        fun w hi => h.idle hi
      · rintro w rfl
        exact .refl w
      · obtain ⟨⟨wf', hst, hch, hnext⟩, hi⟩ := hr
        refine (h.idle hi).ran hst hadmitted fun m hm => ?_
        rw [hm] at hnext
        exact spot_idle htells hidle ht hi hspot hch hst hnext

/-- Every step keeps pace. -/
theorem Pace.step {rs : List NodeRun} {g g' : GraphState} {a : GraphAction}
    (htells : D.TellsRevision)
    (hinv : Inv D rs g.world g.values g.next) (h : Pace D g.world g.values g.next)
    (hstep : graphStep D g a = some g') : Pace D g'.world g'.values g'.next := by
  cases a with
  | accept taskId =>
    unfold graphStep at hstep
    dsimp only at hstep
    split at hstep
    · exact absurd hstep (by simp)
    · obtain rfl := Option.some.inj hstep
      exact h.idle (.of_eq rfl rfl rfl rfl)
  | start turn =>
    obtain rfl := Option.some.inj hstep
    refine ⟨h.each, h.fresh, fun n wf hn _ => ?_⟩
    obtain rfl := Option.some.inj hn
    trivial
  | run config svc =>
    obtain ⟨n, hn, hstep⟩ := Option.map_eq_some_iff.mp hstep
    rw [hn] at h hinv
    have hnode := superstep_pace config svc htells hinv h
    dsimp only at hstep
    split at hstep
    · rename_i after next hok
      obtain rfl := hstep
      exact hnode.returns _ rfl _ hok
    · rename_i e herr
      obtain rfl := hstep
      rw [hn]
      exact hnode.raises _ rfl e herr
  | stop config svc commits =>
    obtain ⟨n, hn, hstep⟩ := Option.bind_eq_some_iff.mp hstep
    obtain ⟨w, hw, rfl⟩ := Option.map_eq_some_iff.mp hstep
    rw [hn] at h hinv ⊢
    have hnode := superstep_pace config svc htells hinv h
    exact hnode.stoppedAt rfl h hw

/-- In every state that a run reaches, the items have kept pace. -/
theorem pace_reachable {g : GraphState} (htells : D.TellsRevision)
    (hg : (sessionGraph D).Reachable g) : Pace D g.world g.values g.next := by
  induction hg with
  | start hg =>
    obtain rfl := hg
    exact ⟨fun _ => Each.nil _, fun _ _ => rfl, fun _ _ hn => absurd hn (by simp)⟩
  | next hr _ hstep ih =>
    obtain ⟨rs, hinv⟩ := inv_reachable htells hr
    exact ih.step htells hinv hstep

/-- A request among the items was sent. -/
theorem sent_of_mem_requests {id : Uuid} {log : List Event} {request : ExecutorRequest}
    (h : request ∈ requests (items id log)) : Event.sent id request ∈ log := by
  obtain ⟨item, hitem, hreq⟩ := List.mem_filterMap.mp h
  obtain ⟨e, he, hitem⟩ := List.mem_filterMap.mp hitem
  cases item with
  | result outcome => exact absurd hreq (by simp [Item.request?])
  | sent r =>
    obtain rfl : r = request := Option.some.inj hreq
    cases e with
    | sent id' r' =>
      unfold Event.item? at hitem
      dsimp only at hitem
      split at hitem
      · rename_i hboth
        obtain rfl := Item.sent.inj (Option.some.inj hitem)
        exact hboth.1 ▸ he
      · exact absurd hitem (by simp)
    | ran n svc s s' =>
      exfalso
      obtain ⟨wf, -, hr⟩ := Option.bind_eq_some_iff.mp (show (Option.bind _ _) = _ from hitem)
      unfold resultItem at hr
      split at hr
      · obtain ⟨_, -, heq⟩ := Option.map_eq_some_iff.mp hr
        exact absurd heq (by simp)
      · exact absurd hr (by simp)
    | persisted => exact absurd hitem (by simp [Event.item?])
    | closed => exact absurd hitem (by simp [Event.item?])

/-- **Append discipline.** Whatever is decided, whatever the Executor answers and wherever a node is
stopped: the Steps a MULTI Task hands to the Executor have the sequences 0, 1, 2, …, each but the
first answers an Operation's result of its own, and once the corrections are used up a failure is
the end. -/
theorem appends_answered {g : GraphState} (htells : D.TellsRevision)
    (hg : (sessionGraph D).Reachable g) (taskId : Uuid)
    (hmulti : ∀ request, Event.sent taskId request ∈ g.world.log → request.mode? ≠ some .single) :
    Answers D.correctionLimit (items taskId g.world.log) :=
  answers_of_each ((pace_reachable htells hg).each taskId) fun request hmem =>
    hmulti request (sent_of_mem_requests hmem)

end

/-- A Step is appended, and the process dies after its request has left; the node runs again. -/
def Sample.resent : List GraphAction :=
  Sample.toAdapt ++ [Sample.ran { multiDecision := .ok ⟨.appendStep, "", some Sample.nextStep,
    Sample.step_of_nextStep⟩ },
    .stop ⟨1, none⟩ { newRevisionId := 301 } 3,
    Sample.ran { newRevisionId := 302, command := .ok ⟨30, some 41, 3⟩ }]

/-- The mode of a submission that left. -/
def Event.mode? : Event → Option ExecutionMode
  | .sent _ request => request.mode?
  | .ran .. | .persisted .. | .closed .. => none

/-- In a run where an append is sent again after a crash, its request is the last item. -/
theorem appends_answered_resent :
    (items 7 (Sample.after Sample.resent).world.log).getLast? = some (.sent Sample.appendRequest) ∧
      Answers 3 (items 7 (Sample.after Sample.resent).world.log) := by
  refine ⟨rfl, ?_⟩
  refine appends_answered Sample.deployment_tellsRevision (Sample.after_reachable rfl) 7
    fun request hmem hsingle => ?_
  have hmodes : (Sample.after Sample.resent).world.log.filterMap Event.mode? = [.multi] := rfl
  have hmode : ExecutionMode.single ∈
      (Sample.after Sample.resent).world.log.filterMap Event.mode? :=
    List.mem_filterMap.mpr ⟨_, hmem, hsingle⟩
  rw [hmodes] at hmode
  exact absurd hmode (by decide)

end ExAgent.Graph
