import ExAgent.Graph.Items
import ExAgent.Graph.Commits

/-!
# Nodes that hand no Step over

Two nodes hand Steps to the Executor, `submit_execution` and `append_operation`. What the others
commit is `Idle`: it changes neither the journal of the requests with Steps, nor the Step sequence
of a binding, nor what the log says of Steps. Of the workflow a node changes the mode, the
corrections, the reconciliation and the plan only where it is its purpose (`Changes`).
-/

namespace ExAgent.Graph

open Lib Prog

/-- The requests of a journal that start no Operation have no Steps. -/
def Plain (w : World) : Prop :=
  ∀ (key : EffectKey) (row : EffectRow), key.startsOperation = false →
    w.effects.get key = some row → row.request.steps = []

/-- Commits that hand no Step over. -/
structure Idle (w w' : World) : Prop where
  effects : ∀ key : EffectKey, key.startsOperation = true → w'.effects.get key = w.effects.get key
  plain : Plain w → Plain w'
  bindings : ∀ id, (w'.bindings.get id).map Binding.nextStepSequence =
    (w.bindings.get id).map Binding.nextStepSequence
  items : ∀ id, items id w'.log = items id w.log
  revisions : ∀ (id : Uuid) (r : Revision), w.revisions.get id = some r →
    w'.revisions.get id = some r

/-- An entry without an item. -/
theorem items_concat_none {id : Uuid} {log : List Event} {e : Event} (h : e.item? id = none) :
    items id (log ++ [e]) = items id log := by
  simp [items, List.filterMap_append, h]

/-- An entry with an item. -/
theorem items_concat_some {id : Uuid} {log : List Event} {e : Event} {item : Item}
    (h : e.item? id = some item) : items id (log ++ [e]) = items id log ++ [item] := by
  simp [items, List.filterMap_append, h]

namespace Idle

variable {w w' w'' : World}

/-- No commit at all hands no Step over. -/
theorem refl (w : World) : Idle w w :=
  ⟨fun _ _ => rfl, id, fun _ => rfl, fun _ => rfl, fun _ _ h => h⟩

/-- Idle commits follow each other. -/
theorem trans (h : Idle w w') (h' : Idle w' w'') : Idle w w'' where
  effects key hkey := (h'.effects key hkey).trans (h.effects key hkey)
  plain hw := h'.plain (h.plain hw)
  bindings id := (h'.bindings id).trans (h.bindings id)
  items id := (h'.items id).trans (h.items id)
  revisions id r hr := h'.revisions id r (h.revisions id r hr)

/-- Commits that leave the journal, the bindings and the log as they are. -/
theorem of_eq (he : w'.effects = w.effects) (hb : w'.bindings = w.bindings) (hl : w'.log = w.log)
    (hr : w'.revisions = w.revisions) : Idle w w' where
  effects key _ := by rw [he]
  plain hw key row hkey hrow := hw key row hkey (he ▸ hrow)
  bindings id := by rw [hb]
  items id := by rw [hl]
  revisions _ _ h := hr.symm ▸ h

/-- One more entry of the log, without an item. -/
theorem of_log {e : Event} (he : w'.effects = w.effects) (hb : w'.bindings = w.bindings)
    (hl : w'.log = w.log ++ [e]) (hitem : ∀ id, e.item? id = none)
    (hr : ∀ (id : Uuid) (r : Revision), w.revisions.get id = some r →
      w'.revisions.get id = some r) : Idle w w' where
  effects key _ := by rw [he]
  plain hw key row hkey hrow := hw key row hkey (he ▸ hrow)
  bindings id := by rw [hb]
  items id := by rw [hl, items_concat_none (hitem id)]
  revisions := hr

/-- A binding moves on at its sequence. -/
theorem of_bindings {taskId : Uuid} {f : Binding → Binding}
    (hf : ∀ b, w.bindings.get taskId = some b → (f b).nextStepSequence = b.nextStepSequence) :
    Idle w { w with bindings := w.bindings.modifyAt taskId f } where
  effects _ _ := rfl
  plain := id
  bindings := map_modifyAt _ _ hf
  items _ := rfl
  revisions _ _ h := h

/-- A row of the journal is stored that has no Steps. -/
theorem of_effects {effects : Table EffectKey EffectRow} {key : EffectKey}
    (hkey : key.startsOperation = false) (hother : ∀ k, k ≠ key → effects.get k = w.effects.get k)
    (hrow : ∀ row, effects.get key = some row → Plain w → row.request.steps = []) :
    Idle w { w with effects } where
  effects k hk := hother k (by rintro rfl; exact absurd (hk.symm.trans hkey) (by decide))
  plain hw k row hk hget := by
    by_cases hk' : k = key
    · subst hk'
      exact hrow row hget hw
    · exact hw k row hk ((hother k hk').symm.trans hget)
  bindings _ := rfl
  items _ := rfl
  revisions _ _ h := h

end Idle

section

variable {D : Deployment} {config : Config} {svc : Services} {w₀ : World} {s : SessionState}
  {wf wf' : WorkflowState} {n : Node} {taskId : Uuid}

/-! ## Services -/

/-- A transaction whose commits are all idle. -/
theorem transact_idle {α : Type} {f : World → Except Raised (α × World)}
    (hf : ∀ w a w', f w = .ok (a, w') → Idle w w') : Steady (Idle w₀) (.transact f : Run α) :=
  .transact fun w hw a w' h => hw.trans (hf w a w' h)

/-- A Task's status hands no Step over. -/
theorem updateStatus_idle {status : TaskStatus} :
    Steady (Idle w₀) (updateStatus taskId status) := by
  refine transact_idle fun w a w' h => ?_
  split at h
  · exact absurd h (by simp)
  · obtain ⟨-, rfl⟩ := Prod.mk.inj (Except.ok.inj h)
    exact .of_eq rfl rfl rfl rfl

/-- The Session lock touches no Task. -/
theorem lockSession_idle : Steady (Idle w₀) (lockSession taskId) := by
  refine transact_idle fun w a w' h => ?_
  split at h
  · exact absurd h (by simp)
  · split at h
    · split at h
      · exact absurd h (by simp)
      · obtain ⟨-, rfl⟩ := Prod.mk.inj (Except.ok.inj h)
        exact .refl w
    · obtain ⟨-, rfl⟩ := Prod.mk.inj (Except.ok.inj h)
      exact .of_eq rfl rfl rfl rfl

/-- A terminal message hands no Step over. -/
theorem terminal_idle {status : TaskStatus} {message : String}
    {metadata : Option TerminalMetadata} :
    Steady (Idle w₀) (terminal taskId status message metadata) := by
  refine transact_idle fun w a w' h => ?_
  split_ifs at h
  split at h
  · exact absurd h (by simp)
  · split_ifs at h
    · obtain ⟨-, rfl⟩ := Prod.mk.inj (Except.ok.inj h)
      exact .refl w
    · obtain ⟨-, rfl⟩ := Prod.mk.inj (Except.ok.inj h)
      exact .of_log rfl rfl rfl (fun _ => rfl) fun _ _ h => h

/-- A revision is stored beside the revisions there are, and nothing is sent. -/
theorem persistPlan_idle {plan : PlanDraft} {compiled : List (CompiledStep × InputPath)}
    {feedback : Option String} {expected : ℕ} :
    Steady (Idle w₀) (persistPlan D svc taskId plan compiled feedback expected) := by
  refine transact_idle fun w a w' h => ?_
  split at h
  · exact absurd h (by simp)
  · split at h
    · exact absurd h (by simp)
    · obtain ⟨-, rfl⟩ := Prod.mk.inj (Except.ok.inj h)
      exact .refl w
    · split at h
      · exact absurd h (by simp)
      · dsimp only at h
        split at h
        · exact absurd h (by simp)
        · rename_i revisions hrevisions
          obtain ⟨-, rfl⟩ := Prod.mk.inj (Except.ok.inj h)
          obtain ⟨hfree, hget⟩ := Table.get_of_insert hrevisions
          refine .of_log rfl rfl rfl (fun _ => rfl) fun id r hr => ?_
          have hne : id ≠ svc.newRevisionId := by
            rintro rfl
            exact absurd (hfree.symm.trans hr) (by simp)
          exact ((hget id).trans (if_neg hne)).trans hr

/-- The check of a plan's mode reads only. -/
theorem validatePlanExecutionMode_idle {plan : PlanDraft} :
    Steady (Idle w₀) (validatePlanExecutionMode wf plan) :=
  (Steady.demand _ _).bind fun _ => .refuseIf _ _

/-- A plan of the Workflow node is stored, or the node stops, and nothing is sent. -/
theorem persist_idle {plan : PlanDraft} : Steady (Idle w₀) (persist D svc wf plan) :=
  validatePlanExecutionMode_idle.bind fun _ => (Steady.ofExcept _).bind fun _ =>
    (Steady.ofExcept _).bind fun _ => persistPlan_idle

/-- A new binding version keeps the sequence of the Steps. -/
theorem updateBinding_idle {version sequence : ℕ} :
    Steady (Idle w₀) (updateBinding taskId version sequence) := by
  refine transact_idle fun w a w' h => ?_
  split at h
  · exact absurd h (by simp)
  · obtain ⟨-, rfl⟩ := Prod.mk.inj (Except.ok.inj h)
    exact .of_bindings fun _ _ => rfl

/-- A receipt without a sequence moves no sequence. -/
theorem projectBinding_idle {executionId : Uuid} {version : ℕ} :
    Steady (Idle w₀) (projectBinding taskId executionId version none none false) := by
  refine transact_idle fun w a w' h => ?_
  split at h
  · exact absurd h (by simp)
  · split at h
    · exact absurd h (by simp)
    · rename_i b hb
      dsimp only at h
      split at h
      · exact absurd h (by simp)
      · obtain ⟨-, rfl⟩ := Prod.mk.inj (Except.ok.inj h)
        refine .of_bindings fun b' hb' => ?_
        obtain rfl := Option.some.inj (hb.symm.trans hb')
        rfl

/-- A request without Steps leaves no trace among the items. -/
theorem item_of_plain {request : ExecutorRequest} (h : request.steps = []) (id : Uuid) :
    (Event.sent taskId request).item? id = none :=
  if_neg fun hsent => hsent.2 h

/-- A request without Steps hands no Step over. -/
theorem send_idle {request : ExecutorRequest} (h : request.steps = []) :
    Steady (Idle w₀) (send svc taskId request) := by
  have hpost : Steady (Idle w₀) (post taskId request) := by
    refine transact_idle fun w a w' h' => ?_
    obtain ⟨-, rfl⟩ := Prod.mk.inj (Except.ok.inj h')
    exact .of_log rfl rfl rfl (item_of_plain h) fun _ _ h => h
  refine (Steady.ofExcept _).bind fun _ => hpost.bind fun _ => ?_
  split
  · exact (Steady.ofExcept _).bind fun _ => .pure _
  · exact (Steady.ofExcept _).bind fun _ => (Steady.refuseIf _ _).bind fun _ =>
      (Steady.refuseIf _ _).bind fun _ => .pure _

/-- A finished effect that starts no Operation hands no Step over. -/
theorem completeEffect_idle {key : EffectKey} {response : EffectResponse}
    (hkey : key.startsOperation = false) :
    Steady (Idle w₀) (completeEffect D key response) := by
  refine transact_idle fun w a w' h => ?_
  split at h
  · exact absurd h (by simp)
  · rename_i row hrow
    split at h
    · split at h
      · exact absurd h (by simp)
      · split at h
        · exact absurd h (by simp)
        · obtain ⟨-, rfl⟩ := Prod.mk.inj (Except.ok.inj h)
          exact .refl w
    · dsimp only at h
      split at h
      · exact absurd h (by simp)
      · obtain ⟨-, rfl⟩ := Prod.mk.inj (Except.ok.inj h)
        refine .of_effects hkey (fun k hk => ?_) fun row' hrow' hplain => ?_
        · exact (Table.get_modifyAt _ _ _ _).trans (if_neg hk)
        · rw [Table.get_modifyAt, if_pos rfl, hrow] at hrow'
          obtain rfl := Option.some.inj hrow'
          exact hplain key row hkey hrow

/-- The journal of a request without Steps. -/
theorem journalRun_idle {key : EffectKey} {kind : EffectKind} {inputs : EffectInputs}
    {prepare : Run ExecutorRequest} (hplain : Plain w₀) (hkey : key.startsOperation = false)
    (hprepare : Triple (Idle w₀) prepare (fun request w => request.steps = [] ∧ Idle w₀ w)
      (Idle w₀)) :
    Steady (Idle w₀) (journalRun D taskId key kind inputs prepare (send svc taskId)) := by
  refine (getEffect_spec key).bind fun found => ?_
  -- What is stored under the key has no Steps, and neither has what is prepared.
  have hstored : Triple (fun w => Idle w₀ w ∧ w.effects.get key = found)
      (storedRecord D taskId key kind inputs prepare found)
      (fun record w => record.request.steps = [] ∧ Idle w₀ w) (Idle w₀) := by
    cases found with
    | some record => exact .pure fun w hw => ⟨hw.1.plain hplain key record hkey hw.2, hw.1⟩
    | none =>
      refine (hprepare.weaken (fun _ h => h.1) (fun _ _ h => h) fun _ h => h).bind fun request =>
        .assume fun hrequest => ?_
      refine ((prepareEffect_spec (I := Idle w₀) key taskId kind _ request (fun _ h => h)
        fun w hw => ?_).weaken (fun _ h => h) (fun record w hw => ?_) fun _ h => h)
      · exact hw.trans (.of_effects hkey
          (fun k hk => (Table.get_insertIfAbsent _ _ _ _).trans (if_neg hk)) fun row hrow hp => by
            rcases effect_cases hrow with hold | ⟨-, rfl⟩
            · exact hp key row hkey hold
            · exact hrequest)
      · exact ⟨hw.1.plain hplain key record hkey hw.2, hw.1⟩
  refine hstored.bind fun record => .assume fun hrecord => ?_
  refine (Steady.refuseIf _ _).bind fun _ => ?_
  unfold completedRecord
  cases record.response with
  | some _ => exact .pure _
  | none => exact (send_idle hrecord).bind fun _ => completeEffect_idle hkey

/-- A command of the lifecycle is journaled, sent and finished, and hands no Step over. -/
theorem lifecycle_idle {kind : EffectKind} {key : EffectKey} {reason : Option String}
    (hplain : Plain w₀) (hkey : key.startsOperation = false) :
    Steady (Idle w₀) (lifecycle D svc wf kind key reason) := by
  refine (Steady.demand _ _).bind fun x => (journalRun_idle hplain hkey ?_).bind fun record => ?_
  · refine Triple.bind (Steady.query _) fun binding => Triple.bind (Steady.refuseIf _ _) fun _ =>
      Triple.pure fun w hw => ⟨?_, hw⟩
    split <;> rfl
  · split
    · exact projectBinding_idle
    · exact .raise _

/-- A report is published, and no Step is handed over. -/
theorem report_idle {evidence : ReportEvidence} (hplain : Plain w₀) :
    Steady (Idle w₀) (report D svc wf evidence) := by
  refine (Steady.demand _ _).bind fun x => (Steady.refuseIf _ _).bind fun _ =>
    (journalRun_idle hplain rfl ?_).bind fun record => (Steady.demand _ _).bind fun _ => ?_
  · exact Triple.bind (Steady.ofExcept _) fun _ => Triple.pure fun w hw => ⟨rfl, hw⟩
  · split
    · exact .pure _
    · exact .raise _

end

/-! ## Nodes -/

/-- What `adapt_multi_plan` does to the workflow, with a decision that is FAIL where the corrections
are used up. -/
structure Adapts (D : Deployment) (svc : Services) (wf wf' : WorkflowState)
    (decision : MultiDecision) : Prop where
  spent : CorrectionsSpent D wf → decision.action = .fail
  given : ¬CorrectionsSpent D wf → ∃ d, svc.multiDecision = .ok d ∧ decision.action = d.action ∧
    ∀ step', decision.nextStep = some step' → ∃ step, d.nextStep = some step ∧
      canonicalizeStepLineage D step = .ok step'
  action : wf'.multiAction = some decision.action
  count : wf'.correctionCount = if wf.outcome? = some .operationFailed
    then some (wf.correctionCount.getD 0 + 1) else wf.correctionCount
  plan : wf'.plan = match decision.nextStep with
    | none => wf.plan
    | some step => wf.plan.map fun plan => plan.withStep step
  persisted : wf'.persisted = wf.persisted

/-- A node changes the mode, the corrections, the reconciliation, the plan and the execution only
where it is its purpose. -/
structure Changes (D : Deployment) (svc : Services) (n : Node) (wf wf' : WorkflowState) : Prop where
  task : wf'.activeTaskId = wf.activeTaskId
  operation : wf'.currentOperationId = wf.currentOperationId
  execution : n ≠ .submitExecution → wf'.executionId = wf.executionId
  mode : n ∉ [.classifyIntent, .chooseExecutionMode, .searchWorkflows, .chooseWorkflow] →
    wf'.executionMode = wf.executionMode
  count : n ∉ [.hydrateTurn, .adaptMultiPlan] → wf'.correctionCount = wf.correctionCount
  outcome : n ≠ .reconcileExecutor → wf'.outcome? = wf.outcome?
  plan : n ∉ [.buildPlan, .loadSelectedWorkflow, .adaptMultiPlan, .appendOperation] →
    wf'.plan = wf.plan
  persisted : n = .verifyApproval → wf'.persisted = wf.persisted
  hydrated : n = .hydrateTurn → wf'.correctionCount = some 0
  adapted : n = .adaptMultiPlan → ∃ decision, Adapts D svc wf wf' decision

/-- The contract of a business node that hands no Step over. -/
def IdleNode (D : Deployment) (n : Node) : Prop :=
  ∀ (svc : Services) (wf : WorkflowState) (w₀ : World), Plain w₀ →
    Triple (Idle w₀) (businessNode D svc n wf) (fun wf' w => Changes D svc n wf wf' ∧ Idle w₀ w)
      (Idle w₀)

section

variable {D : Deployment} {svc : Services} {wf : WorkflowState} {n : Node} {w₀ : World}

/-- A node whose result is a known update of the workflow. -/
theorem IdleNode.of_update {Update : Services → WorkflowState → WorkflowState → Prop}
    (hnode : ∀ svc wf w₀, Plain w₀ → Triple (Idle w₀) (businessNode D svc n wf)
      (fun wf' w => Update svc wf wf' ∧ Idle w₀ w) (Idle w₀))
    (hchanges : ∀ svc wf wf', Update svc wf wf' → Changes D svc n wf wf') : IdleNode D n :=
  fun svc wf w₀ hplain => (hnode svc wf w₀ hplain).weaken (fun _ h => h)
    (fun wf' _ h => ⟨hchanges svc wf wf' h.1, h.2⟩) fun _ h => h

/-- `hydrate_turn` reads the turn only. -/
theorem hydrateTurn_idle : IdleNode D .hydrateTurn := by
  intro svc wf w₀ _
  refine Triple.bind updateStatus_idle fun _ => .pure fun w hw => ⟨?_, hw⟩
  exact ⟨rfl, rfl, fun _ => rfl, fun _ => rfl, fun h => absurd (by simp) h,
    fun _ => rfl, fun _ => rfl, nofun, fun _ => rfl, nofun⟩

/-- `classify_intent` asks the model only. -/
theorem classifyIntent_idle : IdleNode D .classifyIntent := by
  refine .of_update (fun _ _ _ _ => classifyIntent_spec) fun svc wf wf' h => ?_
  obtain ⟨decision, kind, mode, hkind, rfl⟩ := h
  exact ⟨rfl, rfl, fun _ => rfl, fun h => absurd (by simp) h, fun _ => rfl,
    fun _ => rfl, fun _ => rfl, nofun, nofun, nofun⟩

/-- A node that changes none of these. -/
theorem Changes.of_same {wf wf' : WorkflowState} (task : wf'.activeTaskId = wf.activeTaskId)
    (operation : wf'.currentOperationId = wf.currentOperationId)
    (execution : wf'.executionId = wf.executionId) (mode : wf'.executionMode = wf.executionMode)
    (count : wf'.correctionCount = wf.correctionCount)
    (outcome : wf'.executorReconciliation = wf.executorReconciliation)
    (plan : n ∉ [.buildPlan, .loadSelectedWorkflow, .adaptMultiPlan, .appendOperation] →
      wf'.plan = wf.plan)
    (persisted : n = .verifyApproval → wf'.persisted = wf.persisted)
    (hn : n ≠ .hydrateTurn ∧ n ≠ .adaptMultiPlan) : Changes D svc n wf wf' :=
  ⟨task, operation, fun _ => execution, fun _ => mode, fun _ => count,
    fun _ => congrArg (Option.map ExecutorReconciliation.outcome) outcome, plan, persisted,
    fun h => absurd h hn.1, fun h => absurd h hn.2⟩

/-- `clarify_request` asks the user only. -/
theorem clarifyRequest_idle : IdleNode D .clarifyRequest := by
  refine .of_update (fun _ _ _ _ => clarifyRequest_spec) fun svc wf wf' h => ?_
  obtain ⟨message, count, rfl⟩ := h
  exact .of_same rfl rfl rfl rfl rfl rfl (fun _ => rfl) nofun (by decide)

/-- Both answer nodes ask the model only. -/
theorem answer_idle (hn : n = .answerGeneral ∨ n = .answerDataQuestion) : IdleNode D n := by
  intro svc wf w₀ _
  have hnode : businessNode D svc n wf = answerQuestion svc wf := by
    rcases hn with rfl | rfl <;> rfl
  rw [hnode]
  refine Triple.bind updateStatus_idle fun _ => ?_
  refine Triple.bind (Steady.ofExcept _) fun answer => .pure fun w hw => ⟨?_, hw⟩
  rcases hn with rfl | rfl <;>
    exact .of_same rfl rfl rfl rfl rfl rfl (fun _ => rfl) nofun (by decide)

/-- `choose_execution_mode` asks the user only. -/
theorem chooseExecutionMode_idle : IdleNode D .chooseExecutionMode := by
  refine .of_update (fun _ _ _ _ => chooseExecutionMode_spec) fun svc wf wf' h => ?_
  obtain ⟨mode, rfl⟩ := h
  exact ⟨rfl, rfl, fun _ => rfl, fun h => absurd (by simp) h, fun _ => rfl,
    fun _ => rfl, fun _ => rfl, nofun, nofun, nofun⟩

/-- `review_request_risk` asks the model only. -/
theorem reviewRequestRisk_idle : IdleNode D .reviewRequestRisk := by
  refine .of_update (fun _ _ _ _ => reviewRequestRisk_spec) fun svc wf wf' h => ?_
  obtain ⟨review, -, rfl⟩ := h
  exact .of_same rfl rfl rfl rfl rfl rfl (fun _ => rfl) nofun (by decide)

/-- `confirm_request_risk` asks the user only. -/
theorem confirmRequestRisk_idle : IdleNode D .confirmRequestRisk := by
  refine .of_update (fun _ _ _ _ => confirmRequestRisk_spec) fun svc wf wf' h => ?_
  rcases h with ⟨-, rfl⟩ | ⟨review, rfl⟩ <;>
    exact .of_same rfl rfl rfl rfl rfl rfl (fun _ => rfl) nofun (by decide)

/-- `search_workflows` reads the Workflows only. -/
theorem searchWorkflows_idle : IdleNode D .searchWorkflows := by
  refine .of_update (fun _ _ _ _ => searchWorkflows_spec) fun svc wf wf' h => ?_
  obtain ⟨candidates, rfl⟩ := h
  exact ⟨rfl, rfl, fun _ => rfl, fun h => absurd (by simp) h, fun _ => rfl,
    fun _ => rfl, fun _ => rfl, nofun, nofun, nofun⟩

/-- `choose_workflow` asks the user only. -/
theorem chooseWorkflow_idle : IdleNode D .chooseWorkflow := by
  refine .of_update (fun _ _ _ _ => chooseWorkflow_spec) fun svc wf wf' h => ?_
  obtain ⟨d, ⟨candidate, -, rfl⟩ | rfl⟩ := h <;>
    exact ⟨rfl, rfl, fun _ => rfl, fun h => absurd (by simp) h, fun _ => rfl,
      fun _ => rfl, fun _ => rfl, nofun, nofun, nofun⟩

/-- `load_selected_workflow` reads the snapshot and stores its plan. -/
theorem loadSelectedWorkflow_idle : IdleNode D .loadSelectedWorkflow := by
  intro svc wf w₀ _
  have hload : Steady (Idle w₀) (loadSelected D svc wf) := by
    refine (Steady.demand _ _).bind fun _ => (Steady.demand _ _).bind fun _ => ?_
    refine (Steady.demand _ _).bind fun _ => (Steady.ofExcept _).bind fun _ => ?_
    exact (Steady.refuseIf _ _).bind fun _ => (Steady.ofExcept _).bind fun _ =>
      persist_idle.bind fun _ => .pure _
  refine Triple.bind hload fun out => .pure fun w hw => ⟨?_, hw⟩
  exact .of_same rfl rfl rfl rfl rfl rfl (fun h => absurd (by simp) h) nofun (by decide)

/-- `build_plan` asks the model only. -/
theorem buildPlan_idle : IdleNode D .buildPlan := by
  intro svc wf w₀ _
  refine Triple.bind updateStatus_idle fun _ => Triple.bind (Steady.demand _ _) fun _ => ?_
  refine Triple.bind (Steady.demand _ _) fun _ => Triple.bind (Steady.demand _ _) fun _ => ?_
  refine Triple.bind (Steady.refuseIf _ _) fun _ => Triple.bind (Steady.ofExcept _) fun plan => ?_
  exact .pure fun w hw =>
    ⟨.of_same rfl rfl rfl rfl rfl rfl (fun h => absurd (by simp) h) nofun (by decide), hw⟩

/-- `compile_and_persist_plan` stores a revision. -/
theorem compileAndPersistPlan_idle : IdleNode D .compileAndPersistPlan := by
  intro svc wf w₀ _
  refine (Triple.demand fun _ h => h).bind fun plan => .assume fun hplan => ?_
  refine Triple.bind persist_idle fun p => .pure fun w hw => ⟨?_, hw⟩
  exact .of_same rfl rfl rfl rfl rfl rfl (fun _ => hplan.symm) nofun (by decide)

/-- `review_compiled_code_risk` asks the model only. -/
theorem reviewCompiledCodeRisk_idle : IdleNode D .reviewCompiledCodeRisk := by
  refine .of_update (fun _ _ _ _ => reviewCompiledCodeRisk_spec) fun svc wf wf' h => ?_
  obtain ⟨review, -, rfl⟩ := h
  exact .of_same rfl rfl rfl rfl rfl rfl (fun _ => rfl) nofun (by decide)

/-- `review_plan` asks the user only. -/
theorem reviewPlan_idle : IdleNode D .reviewPlan := by
  refine .of_update (fun _ _ _ _ => reviewPlan_spec) fun svc wf wf' h => ?_
  obtain ⟨d, -, rfl⟩ := h
  exact .of_same rfl rfl rfl rfl rfl rfl (fun _ => rfl) nofun (by decide)

/-- `verify_approval` compares hashes only. -/
theorem verifyApproval_idle : IdleNode D .verifyApproval := by
  intro svc wf w₀ _
  have hverify : Steady (Idle w₀) (verifyApprovalAndLock wf) := by
    refine (Steady.refuseIf _ _).bind fun _ => (Steady.demand _ _).bind fun _ => ?_
    exact validatePlanExecutionMode_idle.bind fun _ =>
      lockSession_idle.bind fun _ => updateStatus_idle
  refine Triple.bind hverify fun _ => .pure fun w hw => ⟨?_, hw⟩
  exact .of_same rfl rfl rfl rfl rfl rfl (fun _ => rfl) (fun _ => rfl) (by decide)

/-- `reconcile_executor` reads the Executor and updates the binding. -/
theorem reconcileExecutor_idle : IdleNode D .reconcileExecutor := by
  intro svc wf w₀ _
  refine Triple.bind (Steady.demand _ _) fun external => ?_
  refine Triple.bind (Steady.demand _ _) fun signal => ?_
  refine (reconcile_spec fun _ _ => updateBinding_idle).bind fun rec => .assume fun _ => ?_
  refine .pure fun w hw => ⟨?_, hw⟩
  exact ⟨rfl, rfl, fun _ => rfl, fun _ => rfl, fun _ => rfl, fun h => absurd rfl h,
    fun _ => rfl, nofun, nofun, nofun⟩

/-- The decision of `adapt_multi_plan`. -/
theorem adapt_decision {I : World → Prop} {rec : ExecutorReconciliation}
    (hrec : wf.executorReconciliation = some rec) :
    Triple I (adapt D svc wf rec) (fun decision w =>
      ((CorrectionsSpent D wf → decision.action = .fail) ∧ (¬CorrectionsSpent D wf →
        ∃ d, svc.multiDecision = .ok d ∧ decision.action = d.action ∧
          ∀ step', decision.nextStep = some step' → ∃ step, d.nextStep = some step ∧
            canonicalizeStepLineage D step = .ok step')) ∧ I w) I := by
  have hspent : CorrectionsSpent D wf ↔ rec.outcome = .operationFailed ∧
      D.correctionLimit ≤ wf.correctionCount.getD 0 := by
    simp [CorrectionsSpent, hrec]
  unfold adapt
  by_cases hlimit : rec.outcome = .operationFailed ∧ D.correctionLimit ≤ wf.correctionCount.getD 0
  · rw [if_pos hlimit]
    exact .pure fun w hw => ⟨⟨fun _ => rfl, fun h => absurd (hspent.mpr hlimit) h⟩, hw⟩
  · rw [if_neg hlimit]
    have hno : ¬CorrectionsSpent D wf := fun h => hlimit (hspent.mp h)
    refine (Triple.demand fun _ h => h).bind fun _ => .assume fun _ => ?_
    refine (Triple.demand fun _ h => h).bind fun _ => .assume fun _ => ?_
    refine (Triple.ofExcept fun _ h => h).bind fun d => .assume fun hd => ?_
    cases hstep : d.nextStep with
    | none =>
      refine .pure fun w hw =>
        ⟨⟨fun h => absurd h hno, fun _ => ⟨d, hd, rfl, fun step' hstep' => ?_⟩⟩, hw⟩
      exact absurd (hstep.symm.trans hstep') (by simp)
    | some step =>
      refine (Triple.ofExcept fun _ h => h).bind fun step' => .assume fun hcanonical => ?_
      refine .pure fun w hw =>
        ⟨⟨fun h => absurd h hno, fun _ => ⟨d, hd, rfl, fun step'' hstep'' => ?_⟩⟩, hw⟩
      obtain rfl : step' = step'' := Option.some.inj hstep''
      exact ⟨step, hstep, hcanonical⟩

/-- `adapt_multi_plan` asks the model only. -/
theorem adaptMultiPlan_idle : IdleNode D .adaptMultiPlan := by
  intro svc wf w₀ _
  refine (Triple.demand fun _ h => h).bind fun rec => .assume fun hrec => ?_
  refine (adapt_decision hrec).bind fun decision => .assume fun hdecision => ?_
  have hcount : (if rec.outcome = .operationFailed then some (wf.correctionCount.getD 0 + 1)
      else wf.correctionCount) = if wf.outcome? = some .operationFailed
        then some (wf.correctionCount.getD 0 + 1) else wf.correctionCount := by
    simp [WorkflowState.outcome?, hrec]
  have hchanges : ∀ wf', Adapts D svc wf wf' decision → wf'.activeTaskId = wf.activeTaskId →
      wf'.currentOperationId = wf.currentOperationId →
      wf'.executionId = wf.executionId → wf'.executionMode = wf.executionMode →
      wf'.executorReconciliation = wf.executorReconciliation →
      Changes D svc .adaptMultiPlan wf wf' :=
    fun wf' hadapts task operation execution mode outcome =>
      ⟨task, operation, fun _ => execution, fun _ => mode,
      fun h => absurd (by simp) h, fun _ =>
        congrArg (Option.map ExecutorReconciliation.outcome) outcome,
      fun h => absurd (by simp) h, nofun, nofun, fun _ => ⟨decision, hadapts⟩⟩
  dsimp only
  cases hstep : decision.nextStep with
  | none =>
    refine .pure fun w hw => ⟨hchanges _ ?_ rfl rfl rfl rfl rfl, hw⟩
    exact ⟨hdecision.1, hdecision.2, rfl, hcount, by rw [hstep], rfl⟩
  | some step =>
    refine (Triple.demand fun _ h => h).bind fun plan => .assume fun hplan => ?_
    refine .pure fun w hw => ⟨hchanges _ ?_ rfl rfl rfl rfl rfl, hw⟩
    refine ⟨hdecision.1, hdecision.2, rfl, hcount, ?_, rfl⟩
    have hplan' : wf.plan = some plan := hplan
    rw [hstep, hplan']
    rfl

/-- `finalize_execution` sends a request without Steps. -/
theorem finalizeExecution_idle : IdleNode D .finalizeExecution := by
  intro svc wf w₀ hplain
  refine Triple.bind (lifecycle_idle hplain rfl) fun _ => .pure fun w hw => ⟨?_, hw⟩
  exact .of_same rfl rfl rfl rfl rfl rfl (fun _ => rfl) nofun (by decide)

/-- `cancel_execution` sends a request without Steps. -/
theorem cancelExecution_idle : IdleNode D .cancelExecution := by
  intro svc wf w₀ hplain
  refine Triple.bind (Steady.demand _ _) fun _ => Triple.bind (Steady.demand _ _) fun _ => ?_
  refine Triple.bind (lifecycle_idle hplain rfl) fun _ => .pure fun w hw => ⟨?_, hw⟩
  exact .of_same rfl rfl rfl rfl rfl rfl (fun _ => rfl) nofun (by decide)

/-- `build_report_evidence` reads the result only. -/
theorem buildReportEvidence_idle : IdleNode D .buildReportEvidence := by
  intro svc wf w₀ _
  have hevidence : Steady (Idle w₀) (reportEvidence svc wf) :=
    (Steady.demand _ _).bind fun _ => (Steady.ofExcept _).bind fun _ =>
      (Steady.ofExcept _).bind fun _ => (Steady.demand _ _).bind fun _ => .pure _
  refine Triple.bind hevidence fun _ => .pure fun w hw => ⟨?_, hw⟩
  exact .of_same rfl rfl rfl rfl rfl rfl (fun _ => rfl) nofun (by decide)

/-- `generate_report` publishes a report. -/
theorem generateReport_idle : IdleNode D .generateReport := by
  intro svc wf w₀ hplain
  refine Triple.bind (Steady.demand _ _) fun _ => ?_
  refine Triple.bind (report_idle hplain) fun _ => .pure fun w hw => ⟨?_, hw⟩
  exact .of_same rfl rfl rfl rfl rfl rfl (fun _ => rfl) nofun (by decide)

/-- `commit_answer` ends the Task. -/
theorem commitAnswer_idle : IdleNode D .commitAnswer := by
  intro svc wf w₀ _
  refine Triple.bind (Steady.demand _ _) fun _ => ?_
  refine Triple.bind terminal_idle fun _ => .pure fun w hw => ⟨?_, hw⟩
  exact .of_same rfl rfl rfl rfl rfl rfl (fun _ => rfl) nofun (by decide)

/-- `commit_success` ends the Task. -/
theorem commitSuccess_idle : IdleNode D .commitSuccess := by
  intro svc wf w₀ _
  refine Triple.bind (Steady.demand _ _) fun _ => ?_
  refine Triple.bind terminal_idle fun _ => .pure fun w hw => ⟨?_, hw⟩
  exact .of_same rfl rfl rfl rfl rfl rfl (fun _ => rfl) nofun (by decide)

/-- The terminal nodes with a message of their own. -/
theorem commitWith_idle {status : TaskStatus} {message : String}
    (hn : n ≠ .verifyApproval ∧ n ≠ .hydrateTurn ∧ n ≠ .adaptMultiPlan) :
    Triple (Idle w₀) (commitWith wf status message)
      (fun wf' w => Changes D svc n wf wf' ∧ Idle w₀ w) (Idle w₀) := by
  refine Triple.bind terminal_idle fun _ => .pure fun w hw => ⟨?_, hw⟩
  exact .of_same rfl rfl rfl rfl rfl rfl (fun _ => rfl) (fun h => absurd h hn.1) hn.2

/-- Every business node that hands no Step over. -/
theorem idleNode (hb : n.isBusiness = true) (hn : n ∉ [.submitExecution, .appendOperation]) :
    IdleNode D n := by
  cases n with
  | beginTask | registerExecution | waitExternalSignal | recordEventReceipt =>
    exact absurd hb (by decide)
  | submitExecution | appendOperation => exact absurd (by simp) hn
  | hydrateTurn => exact hydrateTurn_idle
  | classifyIntent => exact classifyIntent_idle
  | clarifyRequest => exact clarifyRequest_idle
  | answerGeneral => exact answer_idle (.inl rfl)
  | answerDataQuestion => exact answer_idle (.inr rfl)
  | commitAnswer => exact commitAnswer_idle
  | chooseExecutionMode => exact chooseExecutionMode_idle
  | reviewRequestRisk => exact reviewRequestRisk_idle
  | confirmRequestRisk => exact confirmRequestRisk_idle
  | searchWorkflows => exact searchWorkflows_idle
  | chooseWorkflow => exact chooseWorkflow_idle
  | loadSelectedWorkflow => exact loadSelectedWorkflow_idle
  | buildPlan => exact buildPlan_idle
  | compileAndPersistPlan => exact compileAndPersistPlan_idle
  | reviewCompiledCodeRisk => exact reviewCompiledCodeRisk_idle
  | reviewPlan => exact reviewPlan_idle
  | verifyApproval => exact verifyApproval_idle
  | reconcileExecutor => exact reconcileExecutor_idle
  | adaptMultiPlan => exact adaptMultiPlan_idle
  | finalizeExecution => exact finalizeExecution_idle
  | cancelExecution => exact cancelExecution_idle
  | buildReportEvidence => exact buildReportEvidence_idle
  | generateReport => exact generateReport_idle
  | commitSuccess => exact commitSuccess_idle
  | commitRejected => exact fun _ _ _ _ => commitWith_idle (by decide)
  | commitBlocked =>
    exact fun _ _ _ _ => Triple.bind (Steady.demand _ _) fun _ => commitWith_idle (by decide)
  | commitFailed =>
    exact fun _ _ _ _ => Triple.bind (Steady.demand _ _) fun _ => commitWith_idle (by decide)
  | commitCancelled => exact fun _ _ _ _ => commitWith_idle (by decide)

/-! ## Every node -/

variable {config : Config} {s : SessionState}

/-- The contract of a node that hands no Step over, with its receipt and its edge. -/
theorem superstep_idle (hplain : Plain w₀)
    (hn : n ∉ [.beginTask, .submitExecution, .appendOperation]) (hwf : s.workflow = some wf)
    (hx : s.executionId = wf.executionId) :
    Triple (Idle w₀) (superstep D config svc n s)
      (fun r w => (∃ wf', SameTask s r.1 wf wf' ∧ Changes D svc n wf wf' ∧
        successor n r.1 = .ok r.2) ∧ Idle w₀ w) (Idle w₀) := by
  cases hb : n.isBusiness with
  | true =>
    refine superstep_of_business hb hwf (fun _ h => h) ?_
    have hsteps : n ∉ [.submitExecution, .appendOperation] := fun h => hn (List.mem_cons_of_mem _ h)
    exact (idleNode hb hsteps svc wf w₀ hplain).weaken (fun _ h => h)
      (fun wf' w h => ⟨⟨h.1.task, h.1⟩, h.2⟩) fun _ h => h
  | false =>
    have hne : n ≠ .beginTask := by
      rintro rfl
      exact absurd (by simp) hn
    refine superstep_of_body ?_
    refine (sessionNode_body hb hne hwf hx).weaken (fun _ h => h) (fun updated w h => ⟨?_, h.2⟩)
      fun _ h => h
    obtain ⟨wf', hst, signal, rfl⟩ := h.1
    refine ⟨_, hst, .of_same rfl rfl rfl rfl rfl rfl (fun _ => rfl) (fun _ => rfl) ?_⟩
    constructor <;> rintro rfl <;> exact absurd hb (by decide)

end

end ExAgent.Graph
