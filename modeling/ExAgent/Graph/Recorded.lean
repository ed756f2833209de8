import ExAgent.Graph.Lineage
import ExAgent.Graph.Pace

/-!
# What is recorded was sent

The lineage of a MULTI Task has, for each sequence, the Step that was sent to the Executor at that
sequence, with the Operation that its request started (`recorded_sent`), and recording never finds
another one there, as long as no decision to finalize replaces the Step that was sent last
(`ReplacesStep`): `adapt_multi_plan` writes the next Step of any decision into the plan, and the
next success records the plan's first Step.

What the rows say of the plan in the state depends on the node that is next. While the Task waits,
the plan has the Step that was sent last (`Latest`); before an append it has the one to be sent.
-/

namespace ExAgent.Graph

open Lib Prog

/-! ## What is to be shown -/

/-- The Step was sent to the Executor, at the sequence, by the request that started the
Operation. -/
def SentStep (D : Deployment) (w : World) (taskId : Uuid) (sequence : ℕ) (operationId : Uuid)
    (step : PlanStepDraft) : Prop :=
  ∃ (key : EffectKey) (effect : EffectRow) (compiled : CompiledStep ×
    InputPath) (executionId : Uuid)
      (version : ℕ), w.effects.get key = some effect ∧ Event.sent taskId effect.request ∈ w.log ∧
    effect.response = some (.command executionId version (some operationId)) ∧
    compileFile D taskId step = .ok compiled ∧
    effect.request.steps = [{ executorStep (planStep step compiled.1 compiled.2) with sequence }]

/-- The Task was submitted in MULTI mode, if at all. -/
def MultiTask (w : World) (taskId : Uuid) : Prop :=
  ∀ r ∈ nodeRuns w.log, r.node = .submitExecution → r.before.activeTaskId = taskId →
    r.before.executionMode = some .multi

/-- A decision to finalize comes with a Step that is not the first one of the plan. -/
def ReplacesStep (D : Deployment) (svc : Services) (wf : WorkflowState) : Prop :=
  ¬CorrectionsSpent D wf ∧ ∃ d step step' plan, svc.multiDecision = .ok d ∧ d.action = .finalize ∧
    d.nextStep = some step ∧ canonicalizeStepLineage D step = .ok step' ∧ wf.plan = some plan ∧
    (plan.withStep step').first ≠ plan.first

/-- The last Operation of the Executor's result is the one that the Task started last. -/
def NamesLatest (svc : Services) (wf : WorkflowState) : Prop :=
  ∀ result operation, svc.result = .ok result → result.operations.getLast? = some operation →
    wf.currentOperationId = some operation.operationId

/-- The condition on what a node is given. -/
def Regular (D : Deployment) (s : LineageState) (svc : Services) : Prop :=
  ∀ wf, s.graph.values.workflow = some wf →
    (s.graph.next = some .adaptMultiPlan → ¬ReplacesStep D svc wf) ∧
      (s.graph.next = some .reconcileExecutor → NamesLatest svc wf)

/-- The condition on a step of a run. -/
def LineageAction.Regular (D : Deployment) (s : LineageState) : LineageAction → Prop
  | .graph (.run _ svc) | .graph (.stop _ svc _) | .recorded svc => Graph.Regular D s svc
  | .graph (.accept _) | .graph (.start _) => True

/-- A result that is kept as an option is the success. -/
theorem toOption_eq_some {ε α : Type} {x : Except ε α} {a : α} :
    x.toOption = some a ↔ x = .ok a := by
  cases x <;> simp [Except.toOption]

instance (svc : Services) (wf : WorkflowState) : Decidable (NamesLatest svc wf) :=
  decidable_of_iff (∀ result ∈ svc.result.toOption, ∀ operation ∈ result.operations.getLast?,
      wf.currentOperationId = some operation.operationId)
    ⟨fun h result operation hresult => h result (toOption_eq_some.mpr hresult) operation,
      fun h result hresult operation => h result operation (toOption_eq_some.mp hresult)⟩

instance (D : Deployment) (svc : Services) (wf : WorkflowState) :
    Decidable (ReplacesStep D svc wf) :=
  decidable_of_iff (¬CorrectionsSpent D wf ∧ ∃ d ∈ svc.multiDecision.toOption,
      d.action = .finalize ∧
      ∃ step ∈ d.nextStep, ∃ step' ∈ (canonicalizeStepLineage D step).toOption, ∃ plan ∈ wf.plan,
        (plan.withStep step').first ≠ plan.first) <| by
    simp only [ReplacesStep, Option.mem_def, toOption_eq_some]
    refine and_congr_right fun _ => exists_congr fun d => ?_
    constructor
    · rintro ⟨hd, haction, step, hstep, step', hcanonical, plan, hplan⟩
      exact ⟨step, step', plan, hd, haction, hstep, hcanonical, hplan⟩
    · rintro ⟨step, step', plan, hd, haction, hstep, hcanonical, hplan⟩
      exact ⟨hd, haction, step, hstep, step', hcanonical, plan, hplan⟩

instance (D : Deployment) (s : LineageState) (svc : Services) : Decidable (Regular D s svc) :=
  decidable_of_iff (∀ wf ∈ s.graph.values.workflow,
      (s.graph.next = some .adaptMultiPlan → ¬ReplacesStep D svc wf) ∧
        (s.graph.next = some .reconcileExecutor → NamesLatest svc wf)) Iff.rfl

instance (D : Deployment) (s : LineageState) : (a : LineageAction) → Decidable (a.Regular D s)
  | .graph (.run _ svc) => inferInstanceAs (Decidable (Graph.Regular D s svc))
  | .graph (.stop _ svc _) => inferInstanceAs (Decidable (Graph.Regular D s svc))
  | .recorded svc => inferInstanceAs (Decidable (Graph.Regular D s svc))
  | .graph (.accept _) => .isTrue trivial
  | .graph (.start _) => .isTrue trivial

/-! ## The invariant -/

/-- The rows of a Task are those of the sequences before. -/
def RowsBelow (rows : Lineage) (taskId : Uuid) (n : ℕ) : Prop :=
  ∀ k row, rows.get (taskId, k) = some row → k < n

/-- The Step that was sent last is the first one of the plan in the state. -/
structure Latest (D : Deployment) (stepHash : PlanStepDraft → Sha256) (rows : Lineage) (w : World)
    (wf : WorkflowState) (plan : PlanDraft) (operationId : Uuid) (sequence : ℕ) : Prop where
  current : wf.plan = some plan
  operation : wf.currentOperationId = some operationId
  next : nextSequence (items wf.activeTaskId w.log) = sequence + 1
  sent : SentStep D w wf.activeTaskId sequence operationId plan.first
  below : RowsBelow rows wf.activeTaskId (sequence + 1)
  row : ∀ row, rows.get (wf.activeTaskId, sequence) = some row →
    row.operationId = operationId ∧ row.stepPayloadHash = stepHash plan.first

/-- What the rows say before a node, by its role. -/
def Role.Records (D : Deployment) (stepHash : PlanStepDraft → Sha256) (rows : Lineage) (w : World)
    (wf : WorkflowState) (n : Node) : Role → Prop
  | .planning => (wf.executionId = none → RowsBelow rows wf.activeTaskId 0) ∧
      (wf.executionId ≠ none → wf.executionMode = some .multi ∧
        RowsBelow rows wf.activeTaskId (nextSequence (items wf.activeTaskId w.log)))
  | .handing => (n = .submitExecution → RowsBelow rows wf.activeTaskId 0) ∧
      (n = .appendOperation → wf.executionMode = some .multi ∧
        RowsBelow rows wf.activeTaskId (frontier (items wf.activeTaskId w.log)))
  | .waiting | .recording | .adapting => wf.executionMode = some .multi ∧
      ∃ plan operationId sequence, Latest D stepHash rows w wf plan operationId sequence
  | .closing => True

/-- The rows of the Tasks, at a checkpoint. -/
structure Lined (D : Deployment) (stepHash : PlanStepDraft → Sha256) (rows : Lineage) (w : World)
    (s : SessionState) (next : Option Node) : Prop where
  sent : ∀ taskId, MultiTask w taskId → ∀ k row, rows.get (taskId, k) = some row →
    SentStep D w taskId k row.operationId row.stepPayload
  fresh : ∀ taskId, s.taskRequests taskId = none → RowsBelow rows taskId 0
  spot : ∀ n wf, next = some n → s.workflow = some wf → MultiTask w wf.activeTaskId →
    n.role.Records D stepHash rows w wf n

section

variable {D : Deployment} {stepHash : PlanStepDraft → Sha256} {rows : Lineage} {config : Config}
  {svc : Services} {w w' w'' w₀ : World} {s s' : SessionState} {wf wf' : WorkflowState} {n m : Node}
  {next : Option Node} {taskId : Uuid} {role : Role}

/-- Rows below a bound are below a larger one. -/
theorem RowsBelow.mono {k l : ℕ} (h : RowsBelow rows taskId k) (hle : k ≤ l) :
    RowsBelow rows taskId l :=
  fun j row hrow => (h j row hrow).trans_le hle

/-! ## Commits -/

/-- The log grows, and answered requests stay. -/
structure Grows (w w' : World) : Prop where
  log : ∀ e ∈ w.log, e ∈ w'.log
  effects : ∀ (key : EffectKey) (row : EffectRow), w.effects.get key = some row →
    row.response ≠ none → w'.effects.get key = some row

/-- No commit lets the world grow by nothing. -/
theorem Grows.refl (w : World) : Grows w w := ⟨fun _ h => h, fun _ _ h _ => h⟩

/-- Growth is transitive. -/
theorem Grows.trans (h : Grows w w') (h' : Grows w' w'') : Grows w w'' where
  log e he := h'.log e (h.log e he)
  effects key row hrow hresponse := h'.effects key row (h.effects key row hrow hresponse) hresponse

/-- A commit that keeps the log and the journal grows by nothing. -/
theorem grows_of_effects (hlog : w'.log = w.log) (heffects : w'.effects = w.effects) :
    Grows w w' :=
  ⟨fun _ he => hlog.symm ▸ he, fun _ _ hrow _ => heffects.symm ▸ hrow⟩

/-- An entry of the log is growth. -/
theorem grows_logged (w : World) (e : Event) : Grows w (w.logged e) :=
  ⟨fun _ he => List.mem_append_left _ he, fun _ _ hrow _ => hrow⟩

/-- Every commit of a node is growth. -/
theorem Commit.grows (h : Commit taskId n w w') : Grows w w' := by
  cases h with
  | status | locked | bound | rebound => exact grows_of_effects rfl rfl
  | revised | closed => exact ⟨fun _ he => List.mem_append_left _ he, fun _ _ hrow _ => hrow⟩
  | sent request => exact grows_logged w _
  | @prepared key row hkey =>
    refine ⟨fun _ he => he, fun k row' hrow _ => ?_⟩
    show (w.effects.insertIfAbsent key row).get k = some row'
    rw [Table.get_insertIfAbsent]
    split
    · rename_i hk
      rw [← hk, hrow]
      rfl
    · exact hrow
  | @answered key row response hkey hrow hopen =>
    refine ⟨fun _ he => he, fun k row' hrow' hresponse => ?_⟩
    -- The row that is answered had no response.
    have hne : k ≠ key := by
      rintro rfl
      obtain rfl : row = row' := Option.some.inj (hrow.symm.trans hrow')
      exact hresponse hopen
    exact ((Table.get_modifyAt _ _ _ _).trans (if_neg hne)).trans hrow'

/-- A superstep lets the world grow, wherever it stops. -/
theorem superstep_grows :
    Triple (Grows w₀) (superstep D config svc n s) (fun _ => Grows w₀) (Grows w₀) :=
  superstep_keeps fun _ _ _ _ _ hw hc => hw.trans hc.grows

/-- A Step that was sent stays sent. -/
theorem SentStep.grow {sequence : ℕ} {operationId : Uuid} {step : PlanStepDraft} (hg : Grows w w')
    (h : SentStep D w taskId sequence operationId step) :
    SentStep D w' taskId sequence operationId step := by
  obtain ⟨key, effect, compiled, x, v, hrow, hlog, hresponse, hrest⟩ := h
  exact ⟨key, effect, compiled, x, v, hg.effects key effect hrow (by rw [hresponse]; simp),
    hg.log _ hlog, hresponse, hrest⟩

/-- A Task with more than one Operation was one from its submission on. -/
theorem MultiTask.before (hg : Grows w w') (h : MultiTask w' taskId) : MultiTask w taskId := by
  intro r hr
  obtain ⟨e, he, hrun⟩ := List.mem_filterMap.mp hr
  exact h r (List.mem_filterMap.mpr ⟨e, hg.log e he, hrun⟩)

/-- The Step that was sent last stays so, as long as no other one is sent. -/
theorem Latest.grow {plan : PlanDraft} {operationId : Uuid} {sequence : ℕ} (hg : Grows w w')
    (h : Latest D stepHash rows w wf plan operationId sequence)
    (htask : wf'.activeTaskId = wf.activeTaskId)
    (hnext : nextSequence (items wf.activeTaskId w'.log) =
      nextSequence (items wf.activeTaskId w.log))
    (hplan : wf'.plan = wf.plan) (hop : wf'.currentOperationId = wf.currentOperationId) :
    Latest D stepHash rows w' wf' plan operationId sequence := by
  refine ⟨hplan.trans h.current, hop.trans h.operation, ?_, ?_, ?_, ?_⟩
  · rw [htask, hnext]
    exact h.next
  · rw [htask]
    exact h.sent.grow hg
  · rw [htask]
    exact h.below
  · rw [htask]
    exact h.row

/-- What the rows say before a node outlives commits that leave the items as they are. -/
theorem Role.Records.same (hg : Grows w w')
    (hitems : items wf.activeTaskId w'.log = items wf.activeTaskId w.log)
    (h : role.Records D stepHash rows w wf n) : role.Records D stepHash rows w' wf n := by
  cases role with
  | planning =>
    refine ⟨h.1, fun hx => ?_⟩
    rw [hitems]
    exact h.2 hx
  | handing =>
    refine ⟨h.1, fun hn => ?_⟩
    rw [hitems]
    exact h.2 hn
  | waiting | recording | adapting =>
    obtain ⟨hmode, plan, operationId, sequence, hlatest⟩ := h
    exact ⟨hmode, plan, operationId, sequence, hlatest.grow hg rfl (by rw [hitems]) rfl rfl⟩
  | closing => trivial

/-- Idle commits leave the rows what they are. -/
theorem Lined.idle (h : Lined D stepHash rows w s next) (hi : Idle w w') (hg : Grows w w') :
    Lined D stepHash rows w' s next where
  sent taskId hmulti k row hrow := (h.sent taskId (hmulti.before hg) k row hrow).grow hg
  fresh := h.fresh
  spot n wf hn hwf hmulti :=
    (h.spot n wf hn hwf (hmulti.before hg)).same hg (hi.items wf.activeTaskId)

/-! ## A completed node -/

/-- The rows behind a completed node, if they are what the node that follows needs. -/
theorem Lined.ran (h : Lined D stepHash rows w s (some n)) (hst : SameTask s s' wf wf')
    (hspot : ∀ m, next = some m → MultiTask (w.logged (.ran n svc s s')) wf'.activeTaskId →
      m.role.Records D stepHash rows (w.logged (.ran n svc s s')) wf' m) :
    Lined D stepHash rows (w.logged (.ran n svc s s')) s' next where
  sent taskId hmulti k row hrow :=
    (h.sent taskId (hmulti.before (grows_logged _ _)) k row hrow).grow (grows_logged _ _)
  fresh taskId hid := h.fresh taskId (hst.requests ▸ hid)
  spot m wf₀ hm hwf₀ hmulti := by
    obtain rfl : wf' = wf₀ := Option.some.inj (hst.after.symm.trans hwf₀)
    exact hspot m hm hmulti

/-- A new Task starts without rows. -/
theorem Lined.begun {turn : TaskTurn} {updated : SessionState}
    (h : Lined D stepHash rows w s (some .beginTask)) (hbegins : Begins s turn updated)
    (hcore : SameCore updated s') (hnext : next = some .hydrateTurn) :
    Lined D stepHash rows (w.logged (.ran .beginTask svc s s')) s' next := by
  subst hnext
  have hwf : s'.workflow = some (.ofTurn turn) := hcore.workflow.trans hbegins.workflow
  refine ⟨fun taskId hmulti k row hrow =>
    (h.sent taskId (hmulti.before (grows_logged _ _)) k row hrow).grow (grows_logged _ _),
    fun id hid => ?_, fun n wf hn hwf' _ => ?_⟩
  · obtain ⟨fingerprint, hrequests⟩ := hbegins.requests
    rw [hcore.requests, hrequests] at hid
    have hne : id ≠ turn.activeTaskId := by
      rintro rfl
      simp at hid
    rw [Function.update_of_ne hne] at hid
    exact h.fresh id hid
  · obtain rfl := Option.some.inj hn
    obtain rfl := Option.some.inj (hwf.symm.trans hwf')
    exact ⟨fun _ => h.fresh _ hbegins.new, fun hsome => absurd rfl hsome⟩

/-- Results do not change the sequence of the next Step. -/
theorem nextSequence_ran (id : Uuid) (hst : SameTask s s' wf wf') :
    nextSequence (items id (w.logged (.ran n svc s s')).log) = nextSequence (items id w.log) := by
  show nextSequence (items id (w.log ++ [.ran n svc s s'])) = _
  rw [items_ran hst.after]
  unfold resultItem
  split
  · cases wf'.outcome?.filter ExecutorOutcome.isOperation with
    | none => simp
    | some outcome => exact nextSequence_concat_result _ outcome
  · simp

/-- Before an append all rows are those of Steps with a result. -/
theorem frontier_of_result {l : List Item} (h : ∃ outcome, l.getLast? = some (.result outcome)) :
    frontier l = nextSequence l := by
  obtain ⟨outcome, hlast⟩ := h
  unfold frontier
  rw [hlast]

/-- Only a Task that is not submitted gets its mode. -/
theorem mode_of_planning (hn : n.role = .planning) (ht : TaskInv D w₀ wf n)
    (hch : Changes D svc n wf wf') (hx : wf.executionId ≠ none) :
    wf'.executionMode = wf.executionMode := by
  apply hch.mode
  intro hearly
  have hplan : NoPlan wf := by
    simp only [List.mem_cons, List.not_mem_nil, or_false] at hearly
    rcases hearly with rfl | rfl | rfl | rfl
    all_goals
      have hstage : NoPlan wf ∧ _ := ht.stage
      exact hstage.1
  exact hx hplan.executionId

/-- A planning node leaves the rows of the lineage as its role asks for. -/
theorem records_planning (hn : n.role = .planning) (ht : TaskInv D w₀ wf n) (hpace : Spot D w wf n)
    (h : n.role.Records D stepHash rows w wf n) (hch : Changes D svc n wf wf')
    (hst : SameTask s s' wf wf') (hnext : successor n s' = .ok (some m)) :
    m.role.Records D stepHash rows (w.logged (.ran n svc s s')) wf' m := by
  have hplan : Planning D.correctionLimit w wf := (spot_of_role hn).mp hpace
  rw [hn] at h
  have hne : ∀ n', n'.role ≠ .planning → n ≠ n' := by
    rintro n' hn' rfl
    exact hn' hn
  have hitems : items wf.activeTaskId (w.logged (.ran n svc s s')).log =
      items wf.activeTaskId w.log :=
    (sameItems_ran hst.after (.inl (hne _ (by decide)))).items
  have hx : wf'.executionId = wf.executionId := hch.execution (hne _ (by decide))
  have hunsent : wf'.executionId = none → RowsBelow rows wf'.activeTaskId 0 := by
    rw [hst.task, hx]
    exact h.1
  have hsubmitted : wf'.executionId ≠ none → wf'.executionMode = some .multi ∧
      RowsBelow rows wf.activeTaskId (nextSequence (items wf.activeTaskId w.log)) := by
    rw [hx]
    intro hsome
    exact ⟨(mode_of_planning hn ht hch hsome).trans (h.2 hsome).1, (h.2 hsome).2⟩
  -- The next node plans on, or closes, or submits, or appends.
  rcases planning_successors n hn m (mem_successors hnext) with hm | hm | ⟨rfl, rfl | rfl⟩
  · rw [hm]
    refine ⟨hunsent, fun hsome => ?_⟩
    rw [hst.task, hitems]
    exact hsubmitted hsome
  · rw [hm]
    trivial
  · have hnone : wf'.executionId = none := by
      have hroute := Except.ok.inj (hst.route rfl hnext)
      cases hx' : wf'.executionId with
      | none => rfl
      | some x => simp [hx'] at hroute
    exact ⟨fun _ => hunsent hnone, nofun⟩
  · have hsome : wf'.executionId ≠ none := by
      have hroute := Except.ok.inj (hst.route rfl hnext)
      intro hnone
      simp [hnone] at hroute
    refine ⟨nofun, fun _ => ?_⟩
    rw [hst.task, hitems,
      frontier_of_result (hplan.answering fun hnone => hsome (hx.trans hnone)).result]
    exact hsubmitted hsome

/-- While the Task waits, the Step that was sent last stays the first one of the plan. -/
theorem records_waiting (hn : n.role = .waiting ∨ n.role = .recording)
    (h : n.role.Records D stepHash rows w wf n) (hch : Changes D svc n wf wf')
    (hst : SameTask s s' wf wf') (hnext : successor n s' = .ok (some m)) :
    m.role.Records D stepHash rows (w.logged (.ran n svc s s')) wf' m := by
  obtain ⟨hmode, plan, operationId, sequence, hlatest⟩ : wf.executionMode = some .multi ∧
      ∃ plan operationId sequence, Latest D stepHash rows w wf plan operationId sequence := by
    rcases hn with hn | hn <;>
    · rw [hn] at h
      exact h
  have hkept : wf'.executionMode = some .multi ∧ ∃ plan operationId sequence,
      Latest D stepHash rows (w.logged (.ran n svc s s')) wf' plan operationId sequence := by
    refine ⟨(hch.mode ?_).trans hmode, plan, operationId, sequence,
      hlatest.grow (grows_logged _ _) hst.task (nextSequence_ran _ hst) (hch.plan ?_) hch.operation⟩
    all_goals
      revert hn
      cases n <;> decide
  have hm : ∀ m ∈ n.successors, m.role = .waiting ∨ m.role = .recording ∨ m.role = .adapting ∨
      m.role = .closing := by
    revert hn
    cases n <;> decide
  rcases hm m (mem_successors hnext) with hm | hm | hm | hm
  · rw [hm]
    exact hkept
  · rw [hm]
    exact hkept
  · rw [hm]
    exact hkept
  · rw [hm]
    trivial

/-- A decision that sends no Step leaves the one that was sent last; the others wait for the
next. -/
theorem records_adapt (hpace : Spot D w wf .adaptMultiPlan) (hx : wf.executionId ≠ none)
    (h : Node.adaptMultiPlan.role.Records D stepHash rows w wf .adaptMultiPlan)
    (hsvc : ¬ReplacesStep D svc wf) (hch : Changes D svc .adaptMultiPlan wf wf')
    (hst : SameTask s s' wf wf') (hnext : successor .adaptMultiPlan s' = .ok (some m)) :
    m.role.Records D stepHash rows (w.logged (.ran .adaptMultiPlan svc s s')) wf' m := by
  obtain ⟨hmode, plan, operationId, sequence, hlatest⟩ : wf.executionMode = some .multi ∧
      ∃ plan operationId sequence, Latest D stepHash rows w wf plan operationId sequence := h
  obtain ⟨decision, hadapts⟩ := hch.adapted rfl
  have hmode' : wf'.executionMode = some .multi := (hch.mode (by decide)).trans hmode
  have hbelow : RowsBelow rows wf'.activeTaskId
      (nextSequence (items wf'.activeTaskId (w.logged (.ran .adaptMultiPlan svc s s')).log)) := by
    rw [nextSequence_ran _ hst, hst.task, hlatest.next]
    exact hlatest.below
  have hroute := hst.route rfl hnext
  unfold routeMultiAction at hroute
  rw [hadapts.action] at hroute
  cases haction : decision.action with
  | appendStep =>
    rw [haction] at hroute
    obtain rfl : .appendOperation = m := Except.ok.inj hroute
    obtain ⟨hrec, outcome, houtcome, hop⟩ :
        Reconciled D.correctionLimit w wf ∧ ∃ outcome, wf.outcome? = some outcome ∧ _ := hpace
    have hsame : SameItems w (w.logged (.ran .adaptMultiPlan svc s s')) wf'.activeTaskId :=
      sameItems_ran hst.after (.inl (by decide))
    refine ⟨nofun, fun _ => ⟨hmode', ?_⟩⟩
    rw [frontier_of_result ⟨outcome, ?_⟩]
    · exact hbelow
    · rw [hsame.items, hst.task]
      exact hrec.result outcome houtcome hop
  | requireReapproval =>
    rw [haction] at hroute
    obtain rfl : .compileAndPersistPlan = m := Except.ok.inj hroute
    exact ⟨fun hnone => absurd ((hch.execution (by decide)).symm.trans hnone) hx,
      fun _ => ⟨hmode', hbelow⟩⟩
  | finalize =>
    rw [haction] at hroute
    obtain rfl : .finalizeExecution = m := Except.ok.inj hroute
    -- The plan still has the Step that was sent last.
    have hfirst : ∃ plan', wf'.plan = some plan' ∧ plan'.first = plan.first := by
      cases hstep : decision.nextStep with
      | none =>
        refine ⟨plan, ?_, rfl⟩
        rw [hadapts.plan, hstep]
        exact hlatest.current
      | some step' =>
        refine ⟨plan.withStep step', ?_, ?_⟩
        · rw [hadapts.plan, hstep, hlatest.current]
          rfl
        · by_contra hne
          have hspent : ¬CorrectionsSpent D wf := fun hspent =>
            absurd ((hadapts.spent hspent).symm.trans haction) (by decide)
          obtain ⟨d, hd, hsame, hgiven⟩ := hadapts.given hspent
          obtain ⟨step, hgiven, hcanonical⟩ := hgiven step' hstep
          exact hsvc ⟨hspent, d, step, step', plan, hd, hsame.symm.trans haction,
            hgiven, hcanonical, hlatest.current, hne⟩
    obtain ⟨plan', hplan', hfirst⟩ := hfirst
    refine ⟨hmode', plan', operationId, sequence, hplan',
      hch.operation.trans hlatest.operation, ?_, ?_, ?_, ?_⟩
    · rw [nextSequence_ran _ hst, hst.task]
      exact hlatest.next
    · rw [hst.task, hfirst]
      exact hlatest.sent.grow (grows_logged _ _)
    · rw [hst.task]
      exact hlatest.below
    · rw [hst.task, hfirst]
      exact hlatest.row
  | fail =>
    rw [haction] at hroute
    obtain rfl : .commitFailed = m := Except.ok.inj hroute
    trivial

/-- The node that follows one that handed no Step over. -/
theorem records_idle (hn : n ∉ [.beginTask, .submitExecution, .appendOperation])
    (ht : TaskInv D w₀ wf n) (hpace : Spot D w wf n) (h : n.role.Records D stepHash rows w wf n)
    (hsvc : n = .adaptMultiPlan → ¬ReplacesStep D svc wf) (hch : Changes D svc n wf wf')
    (hst : SameTask s s' wf wf') (hnext : successor n s' = .ok (some m)) :
    m.role.Records D stepHash rows (w.logged (.ran n svc s s')) wf' m := by
  cases hrole : n.role with
  | planning => exact records_planning hrole ht hpace h hch hst hnext
  | handing =>
    refine absurd ?_ hn
    cases n <;> first | exact absurd hrole (by decide) | decide
  | waiting => exact records_waiting (.inl hrole) h hch hst hnext
  | recording => exact records_waiting (.inr hrole) h hch hst hnext
  | adapting =>
    obtain rfl : n = .adaptMultiPlan := by
      cases n <;> first | rfl | exact absurd hrole (by decide)
    obtain ⟨hin, -⟩ : InExecution w₀ wf ∧ _ := ht.stage
    exact records_adapt hpace hin.submitted h (hsvc rfl) hch hst hnext
  | closing =>
    have hne : n ≠ .beginTask := by
      rintro rfl
      exact hn (by decide)
    rw [closing_successors n hrole hne m (mem_successors hnext)]
    trivial

/-! ## A Step is handed over -/

/-- The request that a node handed over has the first Step of the plan it leaves. -/
theorem HandedOver.carries {record : EffectRow} {receipt : SubmissionReceipt} {rs : List NodeRun}
    (htells : D.TellsRevision) (h : HandedOver D n wf wf' record receipt w)
    (hst : SameTask s s' wf wf') (hmulti : n = .submitExecution → wf.executionMode = some .multi)
    (hinv : n = .appendOperation → Inv D rs w s (some .appendOperation)) :
    record.request.mode? ≠ some .single ∧ CarriesFirst D wf' record.request := by
  rcases h.plan with ⟨rfl, hplan⟩ | ⟨rfl, plan, p, hpersisted, hplan⟩
  · obtain ⟨hmode, plan, row, sequence, hcurrent, hrow, hsteps⟩ := h.proper.fits rfl (hmulti rfl)
    exact ⟨hmode, plan, row, sequence, hplan.trans hcurrent, hst.task ▸ hrow, hsteps⟩
  · refine ⟨h.proper.mode rfl, ?_⟩
    obtain ⟨key, inputs, hkey, hsent⟩ := h.sent
    simp only [WorkflowState.handover?, bind, Option.bind_eq_some_iff] at hkey
    obtain ⟨_, -, op, -, x, -, p', hp', d, -, heq⟩ := hkey
    obtain ⟨rfl, rfl⟩ := Prod.mk.inj (Option.some.inj heq)
    obtain ⟨x', v, step, next, q, current, row, r, sequence, hreq, -, hrow, hstep, -⟩ :=
      appendRequest_of_row htells hst.before hp' (hinv rfl) hsent.stored.1 hsent.stored.2
    rw [hreq] at hpersisted ⊢
    obtain ⟨rfl, rfl⟩ := Prod.mk.inj (Option.some.inj hpersisted)
    refine ⟨_, row, sequence, hplan, ?_, ?_⟩
    · rw [firstRow_withStep, hst.task]
      exact hrow
    · rw [← hstep]
      rfl

/-- The Step that was handed over is the one that was sent last, and has no row. -/
theorem HandedOver.latest {record : EffectRow} {receipt : SubmissionReceipt}
    (h : HandedOver D n wf wf' record receipt w) (hst : SameTask s s' wf wf')
    (hcarries : record.request.mode? ≠ some .single ∧ CarriesFirst D wf' record.request)
    (hbelow : ∀ k, record.request.sequences = [k] → RowsBelow rows wf.activeTaskId k) :
    ∃ plan operationId sequence, Latest D stepHash rows w wf' plan operationId sequence := by
  obtain ⟨hmode, plan, row, sequence, hplan, hrow, hsteps⟩ := hcarries
  obtain ⟨key, inputs, -, hsent⟩ := h.sent
  obtain ⟨k, hk, hnext⟩ := h.proper.numbered hmode
  have hsequences : record.request.sequences = [sequence] := by
    rw [ExecutorRequest.sequences, hsteps]
    rfl
  obtain rfl : sequence = k := List.singleton_inj.mp (hsequences.symm.trans hk)
  have hrows := hbelow sequence hsequences
  unfold firstRow at hrow
  split at hrow
  · exact absurd hrow (by simp)
  · rename_i compiled hcompiled
    obtain rfl := Except.ok.inj hrow
    refine ⟨plan, receipt.operationId, sequence, hplan, h.operation, ?_, ?_, ?_, ?_⟩
    · rw [hst.task, nextSequence_of_last hsent.last, hnext]
      rfl
    · refine ⟨key, record, compiled, receipt.executionId, receipt.executionVersion, hsent.stored.1,
        ?_, h.response, hcompiled, hsteps⟩
      rw [hst.task]
      apply sent_of_mem_requests
      exact List.mem_filterMap.mpr ⟨_, List.mem_of_getLast? hsent.last, rfl⟩
    · rw [hst.task]
      exact hrows.mono (Nat.le_succ _)
    · rw [hst.task]
      intro row hrow
      exact absurd (hrows sequence row hrow) (Nat.lt_irrefl _)

/-- The invariant of a node that hands its Steps over, read at its commits. -/
theorem Lined.of_between {limit : ℕ} (h : Lined D stepHash rows w₀ s (some n))
    (hn : n = .submitExecution ∨ n = .appendOperation) (hwf : s.workflow = some wf)
    (hb : Between D limit wf n w₀ w) (hg : Grows w₀ w) : Lined D stepHash rows w s (some n) where
  sent taskId hmulti k row hrow := (h.sent taskId (hmulti.before hg) k row hrow).grow hg
  fresh := h.fresh
  spot n' wf' hn' hwf' hmulti := by
    obtain rfl : n = n' := Option.some.inj hn'
    obtain rfl : wf = wf' := Option.some.inj (hwf.symm.trans hwf')
    have hrecords := h.spot n wf rfl hwf (hmulti.before hg)
    have hrole : n.role = .handing := by rcases hn with rfl | rfl <;> rfl
    rw [hrole] at hrecords ⊢
    refine ⟨hrecords.1, fun happend => ?_⟩
    rw [hb.paces.frontier (by simp [happend])]
    exact hrecords.2 happend

/-- The rows when the Step is handed over. -/
theorem Lined.handed {record : EffectRow} {receipt : SubmissionReceipt} {rs : List NodeRun}
    (htells : D.TellsRevision) (h : Lined D stepHash rows w s (some n))
    (hn : n = .submitExecution ∨ n = .appendOperation) (hst : SameTask s s' wf wf')
    (hhanded : HandedOver D n wf wf' record receipt w) (hnext : successor n s' = .ok next)
    (hinv : n = .appendOperation → Inv D rs w s (some .appendOperation)) :
    Lined D stepHash rows (w.logged (.ran n svc s s')) s' next := by
  refine h.ran hst fun m hm hmulti => ?_
  have hrole : n.role = .handing := by rcases hn with rfl | rfl <;> rfl
  have hwait : m.role = .waiting := by
    rw [hm] at hnext
    rcases hn with rfl | rfl <;> exact Option.some.inj (edge_of_successor rfl hnext) ▸ rfl
  have hrecords := h.spot n wf rfl hst.before (hst.task ▸ hmulti.before (grows_logged _ _))
  rw [hrole] at hrecords
  -- The run that is logged here is that of a submission, if this is one.
  have hsubmitted : n = .submitExecution → wf.executionMode = some .multi := by
    intro hsubmit
    refine hmulti ⟨n, svc, wf, wf'⟩ ?_ hsubmit hst.task.symm
    rw [hst.runs]
    exact List.mem_concat_self
  have hmode : wf.executionMode = some .multi := by
    rcases hn with hsubmit | happend
    · exact hsubmitted hsubmit
    · exact (hrecords.2 happend).1
  have hbelow : ∀ k, record.request.sequences = [k] → RowsBelow rows wf.activeTaskId k := by
    intro k hk
    rcases hn with hsubmit | happend
    · exact (hrecords.1 hsubmit).mono (Nat.zero_le _)
    · obtain ⟨key, inputs, -, hsent⟩ := hhanded.sent
      obtain ⟨k', hk', hnext'⟩ := hhanded.proper.numbered (hhanded.proper.mode (by simp [happend]))
      obtain rfl : k = k' := List.singleton_inj.mp (hk.symm.trans hk')
      have hfrontier : frontier (items wf.activeTaskId w.log) = k := by
        unfold frontier
        rw [hsent.last]
        dsimp only
        rw [nextSequence_of_last hsent.last, hnext']
        rfl
      exact hfrontier ▸ (hrecords.2 happend).2
  obtain ⟨plan, operationId, sequence, hlatest⟩ :
      ∃ plan operationId sequence, Latest D stepHash rows w wf' plan operationId sequence :=
    hhanded.latest hst (hhanded.carries htells hst hsubmitted hinv) hbelow
  rw [hwait]
  exact ⟨hhanded.mode.trans hmode, plan, operationId, sequence,
    hlatest.grow (grows_logged _ _) rfl (nextSequence_ran _ hst) rfl rfl⟩

/-! ## Every node -/

/-- Where an append completes, the invariant of its own checkpoint still holds. -/
theorem superstep_append {rs : List NodeRun} (htells : D.TellsRevision) (hwf : s.workflow = some wf)
    (hinv : Inv D rs w₀ s (some n)) :
    Triple (fun w => w = w₀) (superstep D config svc n s)
      (fun _ w => n = .appendOperation → Inv D rs w s (some .appendOperation)) fun _ => True := by
  by_cases hn : n = .appendOperation
  · subst hn
    have hspec : Triple (fun w => Inv D rs w s (some .appendOperation))
        (superstep D config svc .appendOperation s) _ _ :=
          superstep_of_business rfl hwf (fun _ h => h)
      ((appendOperation_spec htells hwf).weaken (fun _ h => h)
        (fun wf' w hw => ⟨⟨?_, hw.1⟩, hw.2⟩) fun _ h => h)
    · refine hspec.weaken ?_ (fun _ _ h _ => h.2) fun _ _ => trivial
      rintro w rfl
      exact hinv
    · obtain ⟨_, _, _, _, -, rfl⟩ := hw.1
      rfl
  · exact (Triple.trivial _).weaken (fun _ _ => trivial) (fun _ _ _ h => absurd h hn) fun _ h => h

/-- What a node leaves wherever it stops, and when it completes. -/
theorem superstep_lined {rs : List NodeRun} (config : Config) (svc : Services)
    (htells : D.TellsRevision) (hinv : Inv D rs w₀ s (some n)) (hpace : Pace D w₀ s (some n))
    (h : Lined D stepHash rows w₀ s (some n))
    (hsvc : ∀ wf, s.workflow = some wf → n = .adaptMultiPlan → ¬ReplacesStep D svc wf) :
    Triple (fun w => w = w₀) (superstep D config svc n s)
      (fun r w => Lined D stepHash rows (w.logged (.ran n svc s r.1)) r.1 r.2)
      (fun w => Lined D stepHash rows w s (some n)) := by
  -- The first node takes the turn in; nothing is handed over before it.
  by_cases hbegin : n = .beginTask
  · subst hbegin
    refine (superstep_begin (I := fun w => w = w₀)).weaken (fun _ h => h) (fun r w hr => ?_) ?_
    · obtain ⟨⟨⟨turn, updated, hbegins, hcore⟩, hnext⟩, rfl⟩ := hr
      exact h.begun hbegins hcore hnext
    · rintro w rfl
      exact h
  · obtain ⟨wf, hwf, ht⟩ := hinv.task n rfl hbegin
    obtain ⟨-, hadmitted, hx⟩ := hinv.owner wf hwf
    have hspot := hpace.spot n wf rfl hwf
    have hgrows : Triple (fun w => w = w₀) (superstep D config svc n s)
        (fun _ => Grows w₀) (Grows w₀) := by
      refine superstep_grows.weaken ?_ (fun _ _ h => h) fun _ h => h
      rintro w rfl
      exact .refl w
    -- The two nodes that hand Steps over, and all the others.
    by_cases hn : n = .submitExecution ∨ n = .appendOperation
    · have hrole : n.role = .handing := by rcases hn with rfl | rfl <;> rfl
      have hfacing : Facing D w₀ wf n := (spot_of_role hrole).mp hspot
      have hlimit : failures (items wf.activeTaskId w₀.log) ≤ D.correctionLimit :=
        hfacing.count.trans_le hfacing.limit
      have hhanding : Triple (Between D D.correctionLimit wf n w₀)
          (superstep D config svc n s) _ _ :=
        superstep_handing hn hwf hlimit (fun id r hr => (hinv.revisions id r hr).1) hfacing.matched
      refine (((hhanding.weaken ?_ (fun _ _ h => h) fun _ h => h).both hgrows).both
        (superstep_append htells hwf hinv)).weaken (fun _ h => h) (fun r w hr => ?_) fun w hw => ?_
      · rintro w rfl
        exact ⟨.refl (hpace.each _), hfacing.handing⟩
      · obtain ⟨⟨⟨⟨wf', hst, ⟨record, receipt, hhanded⟩, hnext⟩, hb⟩, hg⟩, hinv'⟩ := hr
        exact (h.of_between hn hwf hb hg).handed htells hn hst hhanded hnext hinv'
      · exact h.of_between hn hwf hw.1.1 hw.1.2
    · have hidle : n ∉ [.beginTask, .submitExecution, .appendOperation] := by
        simp only [List.mem_cons, List.not_mem_nil, or_false]
        exact fun hmem => hmem.elim hbegin hn
      refine (((superstep_idle hinv.plain hidle hwf hx).weaken ?_ (fun _ _ h => h)
        fun _ h => h).both
        hgrows).weaken (fun _ h => h) (fun r w hr => ?_) fun w hw => h.idle hw.1 hw.2
      · rintro w rfl
        exact .refl w
      · obtain ⟨⟨⟨wf', hst, hch, hnext⟩, hi⟩, hg⟩ := hr
        have hkept := h.idle hi hg
        refine hkept.ran hst fun m hm hmulti => ?_
        rw [hm] at hnext
        refine records_idle hidle ht (hspot.idle hi) (hkept.spot n wf rfl hwf ?_)
          (hsvc wf hwf) hch hst hnext
        exact hst.task ▸ hmulti.before (grows_logged _ _)

end

/-! ## Every run -/

section

variable {D : Deployment} {stepHash : PlanStepDraft → Sha256}
    {rows rows' : Lineage} {svc : Services}
  {w : World} {s : SessionState} {wf : WorkflowState} {rs : List NodeRun} {taskId : Uuid}

/-- Every step of the graph leaves the rows what they are. -/
theorem Lined.step {g g' : GraphState} {a : GraphAction} (htells : D.TellsRevision)
    (hinv : Inv D rs g.world g.values g.next) (hpace : Pace D g.world g.values g.next)
    (h : Lined D stepHash rows g.world g.values g.next)
    (hsvc : ∀ config svc wf, (a = .run config svc ∨ ∃ k, a = .stop config svc k) →
      g.values.workflow = some wf → g.next = some .adaptMultiPlan → ¬ReplacesStep D svc wf)
    (hstep : graphStep D g a = some g') : Lined D stepHash rows g'.world g'.values g'.next := by
  cases a with
  | accept taskId =>
    unfold graphStep at hstep
    dsimp only at hstep
    split at hstep
    · exact absurd hstep (by simp)
    · obtain rfl := Option.some.inj hstep
      exact h.idle (.of_eq rfl rfl rfl rfl) (grows_of_effects rfl rfl)
  | start turn =>
    obtain rfl := Option.some.inj hstep
    refine ⟨h.sent, h.fresh, fun n wf hn _ _ => ?_⟩
    obtain rfl := Option.some.inj hn
    trivial
  | run config svc =>
    obtain ⟨n, hn, hstep⟩ := Option.map_eq_some_iff.mp hstep
    have hreplaces := fun wf hwf (hadapt : n = .adaptMultiPlan) =>
      hsvc config svc wf (.inl rfl) hwf (hadapt ▸ hn)
    rw [hn] at h hinv hpace
    -- The node, from its first commit to its last.
    have hnode := superstep_lined config svc htells hinv hpace h hreplaces
    dsimp only at hstep
    split at hstep
    · rename_i after next hok
      obtain rfl := hstep
      exact hnode.returns _ rfl _ hok
    · rename_i e herr
      obtain rfl := hstep
      rw [hn]
      exact hnode.raises _ rfl e herr
  | stop config svc commits =>
    obtain ⟨n, hn, hstep⟩ := Option.bind_eq_some_iff.mp hstep
    obtain ⟨w, hw, rfl⟩ := Option.map_eq_some_iff.mp hstep
    have hreplaces := fun wf hwf (hadapt : n = .adaptMultiPlan) =>
      hsvc config svc wf (.inr ⟨commits, rfl⟩) hwf (hadapt ▸ hn)
    rw [hn] at h hinv hpace ⊢
    have hnode := superstep_lined config svc htells hinv hpace h hreplaces
    exact hnode.stoppedAt rfl h hw

/-- Recording adds rows of its Task only. -/
theorem recordSuccessfulSteps_others {operationId : Uuid} {p : PersistedPlan}
    {registryHash : Sha256} {steps : List PlanStepDraft} {sequence : ℕ}
    (h : recordSuccessfulSteps stepHash taskId operationId p registryHash sequence
      steps rows = .ok rows')
    {key : Uuid × ℕ} {row : SuccessfulStep} (hkey : key.1 ≠ taskId)
    (hrow : rows'.get key = some row) :
    rows.get key = some row := by
  induction steps generalizing sequence rows with
  | nil =>
    obtain rfl := Except.ok.inj h
    exact hrow
  | cons step steps ih =>
    unfold recordSuccessfulSteps at h
    split at h
    · split at h
      · exact absurd h (by simp)
      · exact ih h
    · have hold := ih h
      rw [Table.get_insertIfAbsent, if_neg] at hold
      · exact hold
      · rintro rfl
        exact hkey rfl

/-- The Step that was sent last can be recorded, and is what is recorded. -/
theorem Latest.record {plan : PlanDraft} {operationId : Uuid} {sequence : ℕ} (p : PersistedPlan)
    (registryHash : Sha256) (h : Latest D stepHash rows w wf plan operationId sequence) :
    ∃ rows', recordSuccessfulSteps stepHash wf.activeTaskId operationId p registryHash sequence
        [plan.first] rows = .ok rows' ∧
      ∀ key row, rows'.get key = some row → rows.get key = some row ∨
        (key = (wf.activeTaskId, sequence) ∧ row.operationId = operationId ∧
          row.stepPayload = plan.first ∧ row.stepPayloadHash = stepHash plan.first) := by
  cases hrow : rows.get (wf.activeTaskId, sequence) with
  | some existing =>
    obtain ⟨hop, hhash⟩ := h.row existing hrow
    exact ⟨rows, by simp [recordSuccessfulSteps, hrow, hop, hhash], fun _ _ h => .inl h⟩
  | none =>
    refine ⟨rows.insertIfAbsent (wf.activeTaskId, sequence)
      ⟨operationId, p.planId, p.planRevisionId,
      registryHash, plan.first, stepHash plan.first⟩, by simp only [recordSuccessfulSteps, hrow],
      fun key row hget => ?_⟩
    rw [Table.get_insertIfAbsent] at hget
    split at hget
    · rename_i hkey
      rw [hrow] at hget
      obtain rfl := Option.some.inj hget
      exact .inr ⟨hkey, rfl, rfl, rfl⟩
    · exact .inl hget

/-- In a MULTI Task the call records the Step that was sent last. -/
theorem lineageCall_latest {plan : PlanDraft} {operationId : Uuid} {sequence : ℕ}
    {outcome : Except Raised Lineage} (h : Latest D stepHash rows w wf plan operationId sequence)
    (hmode : wf.executionMode = some .multi)
    (hbound : w.sequence? wf.activeTaskId = some (nextSequence (items wf.activeTaskId w.log)))
    (hsvc : NamesLatest svc wf) (hcall : lineageCall stepHash svc wf w rows = some outcome) :
    outcome = .error (.keyError "plan_id") ∨ ∃ p, outcome = recordSuccessfulSteps stepHash
      wf.activeTaskId operationId p svc.registrySnapshotHash sequence [plan.first] rows := by
  unfold lineageCall at hcall
  split at hcall
  · rename_i b result summaries hexternal hresult hsummaries
    split_ifs at hcall
    simp only [bind, Option.bind_eq_some_iff] at hcall
    obtain ⟨latest, hlatest, binding, hbinding, plan', hplan', mode, hmode', hcall⟩ := hcall
    obtain rfl : plan = plan' := Option.some.inj (h.current.symm.trans hplan')
    obtain rfl : mode = .multi := Option.some.inj (hmode'.symm.trans hmode)
    obtain rfl : operationId = latest.operationId :=
      Option.some.inj (h.operation.symm.trans (hsvc result latest hresult hlatest))
    have hsequence : binding.nextStepSequence = sequence + 1 := by
      unfold World.sequence? at hbound
      rw [hbinding, h.next] at hbound
      exact Option.some.inj hbound
    have hcompleted : completedSteps .multi plan = [plan.first] := rfl
    rw [hcompleted, hsequence] at hcall
    simp only [List.length_singleton, Nat.add_sub_cancel] at hcall
    rw [if_neg (by omega)] at hcall
    obtain rfl := Option.some.inj hcall
    cases wf.persisted with
    | none => exact .inl rfl
    | some p => exact .inr ⟨p, rfl⟩
  · exact absurd hcall (by simp)

/-- The call adds rows of the active Task only. -/
theorem lineageCall_others (hcall : lineageCall stepHash svc wf w rows = some (.ok rows'))
    {key : Uuid × ℕ} {row : SuccessfulStep} (hkey : key.1 ≠ wf.activeTaskId)
    (hrow : rows'.get key = some row) : rows.get key = some row := by
  unfold lineageCall at hcall
  split at hcall
  · split_ifs at hcall
    simp only [bind, Option.bind_eq_some_iff] at hcall
    obtain ⟨_, -, _, -, _, -, _, -, hcall⟩ := hcall
    split at hcall
    · exact absurd hcall (by simp)
    · have hrecord := Option.some.inj hcall
      split at hrecord
      · exact absurd hrecord (by simp)
      · exact recordSuccessfulSteps_others hrecord hkey hrow
  · exact absurd hcall (by simp)

/-- Before `reconcile_executor` the Step that was sent last is in the plan. -/
theorem Lined.latest (h : Lined D stepHash rows w s (some .reconcileExecutor))
    (hpace : Pace D w s (some .reconcileExecutor)) (hwf : s.workflow = some wf)
    (hmulti : MultiTask w wf.activeTaskId) : wf.executionMode = some .multi ∧
      w.sequence? wf.activeTaskId = some (nextSequence (items wf.activeTaskId w.log)) ∧
      ∃ plan operationId sequence, Latest D stepHash rows w wf plan operationId sequence := by
  obtain ⟨hmode, hlatest⟩ : wf.executionMode = some .multi ∧ _ := h.spot _ wf rfl hwf hmulti
  have hwait : Awaiting D.correctionLimit w wf := hpace.spot _ wf rfl hwf
  exact ⟨hmode, hwait.bound, hlatest⟩

/-- What the call records was sent. -/
theorem Lined.called (h : Lined D stepHash rows w s (some .reconcileExecutor))
    (hpace : Pace D w s (some .reconcileExecutor)) (hwf : s.workflow = some wf)
    (hadmitted : s.taskRequests wf.activeTaskId ≠ none) (hsvc : NamesLatest svc wf)
    (hcall : lineageCall stepHash svc wf w rows = some (.ok rows')) :
    Lined D stepHash rows' w s (some .reconcileExecutor) := by
  -- A row of the Task is an old one, or that of the Step that was sent last.
  have hrecorded : MultiTask w wf.activeTaskId → wf.executionMode = some .multi ∧
      ∃ plan operationId sequence, Latest D stepHash rows w wf plan operationId sequence ∧
        ∀ key row, rows'.get key = some row → rows.get key = some row ∨
          (key = (wf.activeTaskId, sequence) ∧ row.operationId = operationId ∧
            row.stepPayload = plan.first ∧ row.stepPayloadHash = stepHash plan.first) := by
    intro hmulti
    obtain ⟨hmode, hbound, plan, operationId, sequence, hlatest⟩ := h.latest hpace hwf hmulti
    refine ⟨hmode, plan, operationId, sequence, hlatest, ?_⟩
    rcases lineageCall_latest hlatest hmode hbound hsvc hcall with hraised | ⟨p, hrecord⟩
    · exact absurd hraised (by simp)
    · obtain ⟨rows₁, hok, hrows⟩ := hlatest.record p svc.registrySnapshotHash
      obtain rfl : rows' = rows₁ := Except.ok.inj (hrecord.trans hok)
      exact hrows
  refine ⟨fun id hmulti k row hrow => ?_, fun id hid k row hrow => ?_,
    fun n wf' hn hwf' hmulti => ?_⟩
  · by_cases hid : id = wf.activeTaskId
    · subst hid
      obtain ⟨-, plan, operationId, sequence, hlatest, hrows⟩ := hrecorded hmulti
      rcases hrows _ row hrow with hold | ⟨hkey, hop, hpayload, -⟩
      · exact h.sent _ hmulti k row hold
      · obtain rfl : k = sequence := (Prod.mk.inj hkey).2
        rw [hop, hpayload]
        exact hlatest.sent
    · exact h.sent id hmulti k row (lineageCall_others hcall hid hrow)
  · have hne : id ≠ wf.activeTaskId := by
      rintro rfl
      exact hadmitted hid
    exact h.fresh id hid k row (lineageCall_others hcall hne hrow)
  · obtain rfl := Option.some.inj hn
    obtain rfl : wf = wf' := Option.some.inj (hwf.symm.trans hwf')
    obtain ⟨hmode, plan, operationId, sequence, hlatest, hrows⟩ := hrecorded hmulti
    refine ⟨hmode, plan, operationId, sequence, { hlatest with below := ?_, row := ?_ }⟩
    · intro k row hrow
      rcases hrows _ row hrow with hold | ⟨hkey, -⟩
      · exact hlatest.below k row hold
      · exact (Prod.mk.inj hkey).2 ▸ Nat.lt_succ_self _
    · intro row hrow
      rcases hrows _ row hrow with hold | ⟨-, hop, -, hhash⟩
      · exact hlatest.row row hold
      · exact ⟨hop, hhash⟩

/-- What holds in every state of a run whose steps are regular. -/
def LinedUp (D : Deployment) (stepHash : PlanStepDraft → Sha256) (s : LineageState) : Prop :=
  Lined D stepHash s.rows s.graph.world s.graph.values s.graph.next

/-- The rows behind the call of the node that is next. -/
theorem LinedUp.recorded {s : LineageState}
    (hinv : Inv D rs s.graph.world s.graph.values s.graph.next)
    (hpace : Pace D s.graph.world s.graph.values s.graph.next) (h : LinedUp D stepHash s)
    (hreg : Regular D s svc) :
    Lined D stepHash (s.recorded stepHash svc) s.graph.world s.graph.values
      s.graph.next := by
  unfold LineageState.recorded
  cases hcall : s.call? stepHash svc with
  | none => exact h
  | some outcome =>
    cases outcome with
    | error e => exact h
    | ok rows' =>
      unfold LineageState.call? at hcall
      split_ifs at hcall with hnext
      obtain ⟨wf, hwf, hcall⟩ := Option.bind_eq_some_iff.mp hcall
      unfold LinedUp at h
      rw [hnext] at hinv hpace h ⊢
      exact h.called hpace hwf (hinv.owner wf hwf).2.1 ((hreg wf hwf).2 hnext) hcall

/-- The condition is about what a node is given beside the outcome of the call. -/
theorem replacesStep_withLineage (call : Option (Except Raised Lineage)) :
    ReplacesStep D (svc.withLineage call) wf ↔ ReplacesStep D svc wf := by
  cases call <;> rfl

/-- A step of the run is a step of the graph on the rows that the node has recorded. -/
theorem LinedUp.step {s s' : LineageState} {a : LineageAction} (htells : D.TellsRevision)
    (hinv : Inv D rs s.graph.world s.graph.values s.graph.next)
    (hpace : Pace D s.graph.world s.graph.values s.graph.next) (h : LinedUp D stepHash s)
    (hreg : a.Regular D s) (hstep : lineageStep stepHash D s a = some s') :
    LinedUp D stepHash s' := by
  -- The node reads its own lineage from the rows, so its condition is that of the plain services.
  have hrun : ∀ svc, Regular D s svc → ∀ wf, s.graph.values.workflow = some wf →
      s.graph.next = some .adaptMultiPlan →
      ¬ReplacesStep D (svc.withLineage (s.call? stepHash svc)) wf := by
    intro svc hreg wf hwf hnext
    rw [replacesStep_withLineage]
    exact (hreg wf hwf).1 hnext
  cases a with
  | recorded svc =>
    have hrecorded := h.recorded hinv hpace hreg
    unfold lineageStep at hstep
    unfold LineageState.recorded at hrecorded
    dsimp only at hstep
    split at hstep
    · rename_i rows hcall
      obtain rfl := Option.some.inj hstep
      rw [hcall] at hrecorded
      exact hrecorded
    · exact absurd hstep (by simp)
    · exact absurd hstep (by simp)
  | graph action =>
    cases action with
    | accept taskId =>
      obtain ⟨g, hg, rfl⟩ := Option.map_eq_some_iff.mp hstep
      exact Lined.step htells hinv hpace h (fun _ _ _ ha => absurd ha (by simp)) hg
    | start turn =>
      obtain ⟨g, hg, rfl⟩ := Option.map_eq_some_iff.mp (show (graphStep D s.graph (.start turn)).map
        (fun g => (⟨g, s.rows⟩ : LineageState)) = some s' from hstep)
      exact Lined.step htells hinv hpace h (fun _ _ _ ha => absurd ha (by simp)) hg
    | run config svc =>
      obtain ⟨g, hg, rfl⟩ := Option.map_eq_some_iff.mp hstep
      refine Lined.step htells hinv hpace (h.recorded hinv hpace hreg) (fun _ svc' wf ha => ?_) hg
      rcases ha with ha | ⟨_, ha⟩
      · obtain ⟨-, rfl⟩ := GraphAction.run.inj ha
        exact hrun svc hreg wf
      · exact absurd ha (by simp)
    | stop config svc commits =>
      obtain ⟨g, hg, rfl⟩ := Option.map_eq_some_iff.mp hstep
      -- A node that stops before its first commit has recorded nothing.
      have hrows : Lined D stepHash (if commits = 0 then s.rows else s.recorded stepHash svc)
          s.graph.world s.graph.values s.graph.next := by
        split
        · exact h
        · exact h.recorded hinv hpace hreg
      refine Lined.step htells hinv hpace hrows (fun _ svc' wf ha => ?_) hg
      rcases ha with ha | ⟨_, ha⟩
      · exact absurd ha (by simp)
      · obtain ⟨-, rfl, -⟩ := GraphAction.stop.inj ha
        exact hrun svc hreg wf

/-- A step of the graph, whatever becomes of the rows. -/
theorem graphStep_of_lineage {s s' : LineageState} {action : GraphAction}
    (hstep : lineageStep stepHash D s (.graph action) = some s') :
    ∃ action', graphStep D s.graph action' = some s'.graph := by
  cases action with
  | accept taskId =>
    obtain ⟨g, hg, rfl⟩ := Option.map_eq_some_iff.mp hstep
    exact ⟨_, hg⟩
  | start turn =>
    obtain rfl := Option.some.inj hstep
    exact ⟨.start turn, rfl⟩
  | run config svc =>
    obtain ⟨g, hg, rfl⟩ := Option.map_eq_some_iff.mp hstep
    exact ⟨_, hg⟩
  | stop config svc commits =>
    obtain ⟨g, hg, rfl⟩ := Option.map_eq_some_iff.mp hstep
    exact ⟨_, hg⟩

/-- The graph of a run with its rows makes a run of its own. -/
theorem graph_reachable {s : LineageState} {C : LineageState → LineageAction → Prop}
    (hs : (lineageGraph stepHash D).ReachableWhen C s) : (sessionGraph D).Reachable s.graph := by
  induction hs with
  | start hs => exact .start hs.1
  | @next s s' a hr hc hstep ih =>
    cases a with
    | recorded svc =>
      unfold lineageGraph lineageStep at hstep
      dsimp only at hstep
      split at hstep
      · obtain rfl := Option.some.inj hstep
        exact ih
      · exact absurd hstep (by simp)
      · exact absurd hstep (by simp)
    | graph action =>
      obtain ⟨action', hg⟩ := graphStep_of_lineage hstep
      exact ih.step (a := action') hg

/-- In every run whose steps are regular, the rows are lined up. -/
theorem linedUp_reachable {s : LineageState} (htells : D.TellsRevision)
    (hs : (lineageGraph stepHash D).ReachableWhen (fun s a => a.Regular D s) s) :
    LinedUp D stepHash s := by
  induction hs with
  | start hs =>
    obtain ⟨hgraph, hrows⟩ := hs
    unfold LinedUp
    rw [hgraph, hrows]
    exact ⟨fun _ _ _ _ h => absurd h (by simp), fun _ _ _ _ h => absurd h (by simp),
      fun _ _ h => absurd h (by simp)⟩
  | next hr hreg hstep ih =>
    have hgraph := graph_reachable hr
    obtain ⟨rs, hinv⟩ := inv_reachable htells hgraph
    exact ih.step htells hinv (pace_reachable htells hgraph) hreg hstep

/-- What the lineage of a MULTI Task owes: its rows are Steps that were sent, and the next call does
not find another Step in its place. -/
def LineageKept (D : Deployment) (stepHash : PlanStepDraft → Sha256) (s : LineageState)
    (taskId : Uuid) : Prop :=
  (∀ sequence row, s.rows.get (taskId, sequence) = some row →
    SentStep D s.graph.world taskId sequence row.operationId row.stepPayload) ∧
  ∀ svc wf, s.graph.values.workflow = some wf → wf.activeTaskId = taskId → NamesLatest svc wf →
    s.call? stepHash svc ≠ some (.error lineageChanged)

/-- **Lineage of executed Steps.** As long as no decision to finalize replaces the Step that was
sent last, every recorded Step of a MULTI Task is the one that was sent at its sequence by the
request that started its Operation, and recording never raises that the lineage changed. -/
theorem recorded_sent {s : LineageState} (htells : D.TellsRevision)
    (hs : (lineageGraph stepHash D).ReachableWhen (fun s a => a.Regular D s) s) (taskId : Uuid)
    (hmulti : MultiTask s.graph.world taskId) : LineageKept D stepHash s taskId := by
  have hlined := linedUp_reachable htells hs
  have hgraph := graph_reachable hs
  have hpace := pace_reachable htells hgraph
  refine ⟨hlined.sent taskId hmulti, fun svc wf hwf htask hsvc hcall => ?_⟩
  subst htask
  unfold LineageState.call? at hcall
  split_ifs at hcall with hnext
  obtain ⟨wf', hwf', hcall⟩ := Option.bind_eq_some_iff.mp hcall
  obtain rfl : wf = wf' := Option.some.inj (hwf.symm.trans hwf')
  unfold LinedUp at hlined
  rw [hnext] at hlined hpace
  obtain ⟨hmode, hbound, plan, operationId, sequence, hlatest⟩ := hlined.latest hpace hwf hmulti
  rcases lineageCall_latest hlatest hmode hbound hsvc hcall with hraised | ⟨p, hrecord⟩
  · exact absurd hraised (by simp [lineageChanged])
  · obtain ⟨rows', hok, -⟩ := hlatest.record p svc.registrySnapshotHash
    exact absurd (hrecord.trans hok) (by simp)

end

/-! ## Sample runs -/

namespace Sample

/-- The hash of a Step is the length of its program. -/
def stepHash (step : PlanStepDraft) : Sha256 := (step.customCode.getD "").length

/-- A node completes. -/
def lined (svc : Services) : LineageAction := .graph (ran svc)

/-- The execution is finalized with a decision, and its end is reported. -/
def finalized (decision : MultiDecision) : List LineageAction :=
  toAdapt.map .graph ++
    [lined { multiDecision := .ok decision }, lined { command := .ok ⟨30, none, 3⟩ },
    lined { resume := some (.worker ⟨7, 92, ⟨52, 30, "execution.completed", 2, "", "", "",
      Worker.completed_nonempty, by decide⟩⟩) }]

/-- What the Executor answers then. -/
def ended : Services :=
  { result := .ok ⟨30, .succeeded, 4, [⟨40, .succeeded, none, []⟩]⟩ }

/-- The execution is finalized with the Step that was sent, and ends. -/
def recorded : List LineageAction :=
  finalized ⟨.finalize, "", none, by simp⟩ ++ [.recorded ended, lined ended]

/-- The decision to finalize has another Step. -/
def replaced : List LineageAction := finalized ⟨.finalize, "", some nextStep, by simp⟩

/-- The state that a list of actions leads to. -/
def afterLineage (actions : List LineageAction) : LineageState :=
  ((lineageGraph stepHash deployment).run {} actions).getD {}

/-- A lineage run by steps that meet a condition is reachable under it. -/
theorem afterLineage_reachable {C : LineageState → LineageAction → Prop} [∀ s a, Decidable (C s a)]
    {actions : List LineageAction}
    (h : ((lineageGraph stepHash deployment).runIf C {} actions).isSome = true) :
    (lineageGraph stepHash deployment).ReachableWhen C (afterLineage actions) := by
  obtain ⟨s, hs⟩ := Option.isSome_iff_exists.mp h
  unfold afterLineage
  rw [Machine.run_of_runIf hs]
  exact Machine.ReachableWhen.runIf (.start ⟨rfl, rfl⟩) hs

/-- The mode of a submission. -/
def submittedMode (r : NodeRun) : Option (Option ExecutionMode) :=
  if r.node = .submitExecution then some r.before.executionMode else none

/-- A world whose only submission is of mode MULTI makes every Task of it a MULTI Task. -/
theorem multiTask_of_modes {w : World}
    (h : (nodeRuns w.log).filterMap submittedMode = [some .multi])
    (taskId : Uuid) : MultiTask w taskId := by
  intro r hr hnode _
  have hmem : r.before.executionMode ∈ (nodeRuns w.log).filterMap submittedMode :=
    List.mem_filterMap.mpr ⟨r, hr, if_pos hnode⟩
  rw [h] at hmem
  exact List.mem_singleton.mp hmem

end Sample

/-- In a run that is sent, answered and finalized, the row of Step 0 is there and its lineage is
kept. -/
theorem recorded_sent_finalized :
    ((Sample.afterLineage Sample.recorded).rows.get (7, 0)).isSome ∧
      LineageKept Sample.deployment Sample.stepHash (Sample.afterLineage Sample.recorded) 7 :=
  ⟨rfl, recorded_sent Sample.deployment_tellsRevision (Sample.afterLineage_reachable rfl) 7
    (Sample.multiTask_of_modes rfl 7)⟩

/-- A decision to finalize that has a next Step makes the end of the execution unrecordable. -/
theorem not_recorded_replaced :
    (lineageGraph Sample.stepHash Sample.deployment).Reachable
      (Sample.afterLineage Sample.replaced) ∧
      MultiTask (Sample.afterLineage Sample.replaced).graph.world 7 ∧
      ¬LineageKept Sample.deployment Sample.stepHash (Sample.afterLineage Sample.replaced) 7 := by
  refine ⟨Sample.afterLineage_reachable rfl, Sample.multiTask_of_modes rfl 7, fun h => ?_⟩
  obtain ⟨wf, hwf⟩ : ∃ wf, (Sample.afterLineage Sample.replaced).graph.values.workflow = some wf :=
    ⟨_, rfl⟩
  have htask : some wf.activeTaskId = some 7 :=
    congrArg (Option.map WorkflowState.activeTaskId) hwf.symm
  have hoperation : some wf.currentOperationId = some (some 40) :=
    congrArg (Option.map WorkflowState.currentOperationId) hwf.symm
  refine h.2 Sample.ended wf hwf (Option.some.inj htask)
    (fun result operation hresult hlast => ?_) rfl
  obtain rfl := Except.ok.inj hresult
  obtain rfl := Option.some.inj hlast
  exact Option.some.inj hoperation

end ExAgent.Graph
