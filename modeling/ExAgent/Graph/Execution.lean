import ExAgent.Graph.Planning

/-!
# The execution nodes keep the invariant

The nodes that talk to the Executor. A submission and an append write their request to the journal
before it leaves, so the invariant says of a stored request which Steps it carries, and the contract
of the journal (`journalRun_spec`) hands exactly that to the step that sends it. An append key names
only the Operation before it. That the request stored under it is one of the state's current
revision follows from the digest of its inputs, which has the revision's id.
-/

namespace ExAgent.Graph

open Lib Prog

section

variable {D : Deployment} {rs : List NodeRun} {config : Config} {svc : Services} {w w' : World}
    {s s' : SessionState}
  {wf wf' : WorkflowState} {n m : Node} {next : Option Node} {I : World → Prop}

/-! ## Journal rows -/

/-- A row of the journal after an insert is an old one or the new one. -/
theorem effect_cases {key k : EffectKey} {row row' : EffectRow}
    (h : (w.withEffect key row).effects.get k = some row') :
    w.effects.get k = some row' ∨ (k = key ∧ row' = row) := by
  unfold World.withEffect at h
  rw [Table.get_insertIfAbsent] at h
  split at h
  · rename_i hk
    rw [hk]
    cases hold : w.effects.get key with
    | none =>
      rw [hold] at h
      exact .inr ⟨rfl, (Option.some.inj h).symm⟩
    | some old =>
      rw [hold] at h
      exact .inl h
  · exact .inl h

/-- A request without Steps is prepared quietly. -/
theorem Quiet.withEffect {key : EffectKey} {row : EffectRow} (hkey : key.startsOperation = false)
    (hsteps : row.request.steps = []) : Quiet w (w.withEffect key row) := by
  refine ⟨rfl, rfl, fun _ => rfl, fun _ => rfl, fun k row' h => ?_⟩
  rcases effect_cases h with h | ⟨rfl, rfl⟩
  · exact .inl ⟨row', h, rfl, rfl⟩
  · exact .inr ⟨hkey, hsteps⟩

/-- Preparing the request of the next node keeps the invariant. -/
theorem Inv.withEffect {key : EffectKey} {row : EffectRow} (h : Inv D rs w s (some n))
    (hwf : s.workflow = some wf)
    (hkey : (∃ k, key = .submit wf.activeTaskId k ∧ n = .submitExecution ∧
        SubmitRequest w wf row.request) ∨
      ∃ op, key = .append wf.activeTaskId op ∧ AppendRow D w wf n row) :
    Inv D rs (w.withEffect key row) s (some n) := by
  obtain ⟨-, hadmitted, -⟩ := h.owner wf hwf
  have hx : Extends w (w.withEffect key row) := ⟨fun _ _ hr => hr, rfl, .refl _⟩
  refine ⟨h.runs, h.owner, fun taskId ht => ?_, h.revisions, fun k row' hk hrow' => ?_,
    h.bindings, h.sound, fun n' hn' hb => ?_⟩
  · -- A Task that was not admitted is not the one of the key.
    have hne : wf.activeTaskId ≠ taskId := by
      rintro rfl
      exact hadmitted ht
    have hu := h.fresh taskId ht
    refine ⟨hu.revisions, fun k => ?_, fun op => ?_, hu.task, hu.runs⟩
    · cases hrow : (w.withEffect key row).effects.get (.submit taskId k) with
      | none => rfl
      | some row' =>
        rcases effect_cases hrow with hrow | ⟨rfl, -⟩
        · exact absurd (hrow.symm.trans (hu.submits k)) (by simp)
        · rcases hkey with ⟨_, hkey, -⟩ | ⟨_, hkey, -⟩
          · exact absurd (EffectKey.submit.inj hkey).1.symm hne
          · exact absurd hkey (by simp)
    · cases hrow : (w.withEffect key row).effects.get (.append taskId op) with
      | none => rfl
      | some row' =>
        rcases effect_cases hrow with hrow | ⟨rfl, -⟩
        · exact absurd (hrow.symm.trans (hu.appends op)) (by simp)
        · rcases hkey with ⟨_, hkey, -⟩ | ⟨_, hkey, -⟩
          · exact absurd hkey (by simp)
          · exact absurd (EffectKey.append.inj hkey).1.symm hne
  · rcases effect_cases hrow' with hrow' | ⟨rfl, -⟩
    · exact h.plain k row' hk hrow'
    · rcases hkey with ⟨_, rfl, -⟩ | ⟨_, rfl, -⟩ <;>
        exact absurd hk (by simp [EffectKey.startsOperation])
  · obtain rfl : n = n' := Option.some.inj hn'
    obtain ⟨wf₀, hwf₀, ht⟩ := h.task n rfl hb
    obtain rfl : wf = wf₀ := Option.some.inj (hwf.symm.trans hwf₀)
    refine ⟨wf, hwf, ht.bound, ht.current, fun hex k row' hrow' => ?_, fun op row' hrow' => ?_,
      ht.execution, ht.stage.mono hx⟩
    · rcases effect_cases hrow' with hrow' | ⟨hk, rfl⟩
      · obtain ⟨hn, hsub⟩ := ht.submits hex k row' hrow'
        exact ⟨hn, hsub.mono hx ht.stored⟩
      · rcases hkey with ⟨_, -, hn, hsub⟩ | ⟨_, hkey, -⟩
        · exact ⟨hn, hsub.mono hx ht.stored⟩
        · exact absurd (hk.trans hkey) (by simp)
    · rcases effect_cases hrow' with hrow' | ⟨hk, rfl⟩
      · exact (ht.appends op row' hrow').mono hx rfl rfl
      · rcases hkey with ⟨_, hkey, -⟩ | ⟨_, -, happ⟩
        · exact absurd (hk.trans hkey) (by simp)
        · exact happ.mono hx rfl rfl

/-- The receipt of a response reads the record only. -/
theorem submissionReceipt_spec {record : EffectRow} :
    Triple I (submissionReceipt record) (fun _ => I) I := by
  unfold submissionReceipt
  split
  · exact .pure fun _ h => h
  · exact .raise fun _ h => h

/-- Sending a request keeps the invariant, if the log stays sound. -/
theorem send_keeps {taskId : Uuid} {request : ExecutorRequest} {row : EffectRow} {key : EffectKey}
    {Good : World → Prop}
    (hsound : ∀ w, Inv D rs w s next → Good w → Sound D w.log (.sent taskId request)) :
    Triple (fun w => (Inv D rs w s next ∧ w.effects.get key = some row) ∧ Good w)
      (send svc taskId request) (fun _ w => Inv D rs w s next ∧ w.effects.get key = some row)
      fun w => Inv D rs w s next := by
  refine (send_spec (P := fun w => Inv D rs w s next ∧ Good w) svc taskId request (fun _ h => h.1)
    fun w h => ?_).weaken (fun _ h => ⟨⟨h.1.1, h.2⟩, h.1.2⟩) (fun _ _ h => h) fun _ h => h
  exact h.1.note rfl (hsound w h.1 h.2)

/-! ## Submission -/

/-- The Steps of a revision are its rows. -/
theorem mem_steps_of_approved {r : Revision} {revisionId : Uuid} {row : PlanStep}
    (hr : w.revisions.get revisionId = some r) (hrow : row ∈ w.approvedSteps revisionId) :
    row ∈ r.steps := by
  unfold World.approvedSteps at hrow
  rw [hr] at hrow
  exact (List.mem_insertionSort _).mp hrow

/-- What `prepare` of a submission prepares. -/
theorem prepareSubmit_spec {mode : ExecutionMode} {p : PersistedPlan} (hp : wf.persisted = some p) :
    Triple I (prepareSubmit svc wf mode p.planRevisionId)
      (fun request w => SubmitRequest w wf request ∧ I w) I := by
  refine (Triple.query fun _ h => h).bind fun rows => ?_
  refine (Triple.refuseIf fun _ h => h.2).bind fun _ => .assume fun _ => ?_
  refine (Triple.ofExcept fun _ h => h.2).bind fun _ => .assume fun _ => .pure fun w hw => ?_
  obtain ⟨hrows, hw⟩ := hw
  refine ⟨⟨fun p' hp' step hstep => ?_, rfl⟩, hw⟩
  obtain rfl : p = p' := Option.some.inj (hp.symm.trans hp')
  obtain ⟨row, hrow, rfl⟩ := List.mem_map.mp hstep
  refine ⟨row, ?_, rfl⟩
  rw [Except.ok.inj hrows]
  split at hrow
  · exact List.mem_of_mem_take hrow
  · exact hrow

/-- A submission that leaves hands over reviewed Steps. -/
theorem sound_submit {request : ExecutorRequest} {taskId : Uuid} (hwf : s.workflow = some wf)
    (h : Inv D rs w s (some .submitExecution)) (hreq : SubmitRequest w wf request) :
    Sound D w.log (.sent taskId request) := by
  obtain ⟨wf₀, hwf₀, ht⟩ := h.task _ rfl (by decide)
  obtain rfl : wf = wf₀ := Option.some.inj (hwf.symm.trans hwf₀)
  obtain ⟨-, -, -, p, r, review, hrev, -⟩ := ht.stage
  refine ⟨fun step hstep => .inl ?_, fun step hstep => ?_⟩
  · obtain ⟨row, hrow, rfl⟩ := hreq.steps p hrev.persisted step hstep
    obtain ⟨e, he, hreviews⟩ := hrev.gated
    exact ⟨p.planRevisionId, r, review, e, row, he, hreviews, hrev.level,
      mem_steps_of_approved hrev.stored hrow, rfl⟩
  · exact absurd (hreq.appended.symm.trans hstep) (by simp)

/-- Binding the Task of a submission to its execution keeps the invariant. -/
theorem Inv.withBinding {b : Binding} {task : TaskRow} (h : Inv D rs w s (some .submitExecution))
    (hwf : s.workflow = some wf) (hnone : w.bindings.get wf.activeTaskId = none)
    (htask : w.tasks.get wf.activeTaskId = some task) :
    Inv D rs (w.withBinding wf.activeTaskId b) s (some .submitExecution) := by
  obtain ⟨-, hadmitted, -⟩ := h.owner wf hwf
  have hx : Extends w (w.withBinding wf.activeTaskId b) := ⟨fun _ _ hr => hr, rfl, .refl _⟩
  -- The row of any other Task is as it was.
  have hother : ∀ taskId, taskId ≠ wf.activeTaskId →
      (w.withBinding wf.activeTaskId b).tasks.get taskId = w.tasks.get taskId := by
    intro taskId hne
    exact (Table.get_modifyAt _ _ _ _).trans (if_neg hne)
  refine ⟨h.runs, h.owner, fun taskId ht => ?_, h.revisions, h.plain,
    fun taskId b' hb' => ?_, h.sound, fun n' hn' hb => ?_⟩
  · have hne : taskId ≠ wf.activeTaskId := by
      rintro rfl
      exact hadmitted ht
    have hu := h.fresh taskId ht
    exact ⟨hu.revisions, hu.submits, hu.appends, fun t ht' => hu.task t (hother taskId hne ▸ ht'),
      hu.runs⟩
  · by_cases hid : taskId = wf.activeTaskId
    · obtain rfl := hid
      have hnew : (w.withBinding wf.activeTaskId b).bindings.get wf.activeTaskId = some b := by
        refine (Table.get_insertIfAbsent _ _ _ _).trans ?_
        rw [if_pos rfl, hnone]
        rfl
      obtain rfl : b = b' := Option.some.inj (hnew.symm.trans hb')
      refine ⟨{ task with executionId := some b.executionId }, ?_, rfl⟩
      refine (Table.get_modifyAt _ _ _ _).trans ?_
      rw [if_pos rfl, htask]
      rfl
    · have hold : w.bindings.get taskId = some b' :=
        ((Table.get_insertIfAbsent _ _ _ _).trans (if_neg hid)).symm.trans hb'
      rw [hother taskId hid]
      exact h.bindings taskId b' hold
  · obtain rfl : Node.submitExecution = n' := Option.some.inj hn'
    obtain ⟨wf₀, hwf₀, ht⟩ := h.task _ rfl hb
    refine ⟨wf₀, hwf₀, ht.bound, ht.current, fun hex k row hrow => ?_, fun op row hrow => ?_,
      fun hne => absurd rfl hne, ht.stage.mono hx⟩
    · obtain ⟨hn, hsub⟩ := ht.submits hex k row hrow
      exact ⟨hn, hsub.mono hx ht.stored⟩
    · exact (ht.appends op row hrow).mono hx rfl rfl

/-- After the binding the Task's row has the execution. -/
theorem bindSubmission_spec {executionId : Uuid} {version : ℕ} {operationId : Option Uuid}
    {sequence : Option ℕ} (hwf : s.workflow = some wf) :
    Triple (fun w => Inv D rs w s (some .submitExecution))
      (projectBinding wf.activeTaskId executionId version operationId sequence true)
      (fun _ w => (∀ t, w.tasks.get wf.activeTaskId = some t → t.executionId = some executionId) ∧
        Inv D rs w s (some .submitExecution)) fun w => Inv D rs w s (some .submitExecution) := by
  refine projectBinding_cases (fun _ h => h) (fun w b b' hw hb hid hb' => ?_)
    fun w b task _ hw hnone htask _ hid => ?_
  · have hinv := Inv.quietClosed _ _ hw (Quiet.of_binding hb hb')
    refine ⟨hinv, fun t ht => ?_, hinv⟩
    obtain ⟨t₀, ht₀, hexec⟩ := hw.bindings _ b hb
    obtain rfl : t = t₀ := Option.some.inj (ht.symm.trans ht₀)
    rw [hexec, hid]
  · have hinv := hw.withBinding (b := b) hwf hnone htask
    refine ⟨hinv, fun t' ht' => ?_, hinv⟩
    have hrow := (Table.get_modifyAt w.tasks wf.activeTaskId wf.activeTaskId
      fun t => { t with executionId := some b.executionId }).symm.trans ht'
    rw [if_pos rfl, htask] at hrow
    rw [← Option.some.inj hrow, ← hid]

/-- A submission binds its Task to the execution of its receipt, and keeps the invariant. -/
theorem submit_spec (hwf : s.workflow = some wf) :
    Triple (fun w => Inv D rs w s (some .submitExecution)) (submit D svc wf)
      (fun receipt w => (∀ t, w.tasks.get wf.activeTaskId = some t →
          t.executionId = some receipt.executionId) ∧
        Inv D rs w s (some .submitExecution)) fun w => Inv D rs w s (some .submitExecution) := by
  refine (Triple.demand fun _ h => h).bind fun plan => .assume fun _ => ?_
  refine validatePlanExecutionMode_spec.bind fun _ => .assume fun _ => ?_
  refine (Triple.demand fun _ h => h).bind fun p => .assume fun hp => ?_
  refine (Triple.demand fun _ h => h).bind fun mode => .assume fun _ => ?_
  -- The request in the journal has Steps of the revision in the state, whenever it was prepared.
  have hgood : ∀ w row, Inv D rs w s (some .submitExecution) →
      w.effects.get (.submit wf.activeTaskId p.planRevisionNumber) = some row →
      SubmitRequest w wf row.request := by
    intro w row hw hrow
    obtain ⟨wf₀, hwf₀, ht⟩ := hw.task _ rfl (by decide)
    obtain rfl : wf = wf₀ := Option.some.inj (hwf.symm.trans hwf₀)
    obtain ⟨-, -, hnone, -⟩ := ht.stage
    exact (ht.submits hnone _ row hrow).2
  refine (journalRun_spec
    (fun request w => SubmitRequest w wf request ∧ Inv D rs w s (some .submitExecution))
    (fun request w => SubmitRequest w wf request) Inv.quietClosed ?_ (fun _ _ h => h.2)
    (fun request w h => h.2.withEffect hwf (.inl ⟨_, rfl, rfl, h.1⟩))
    (fun w row hw hrow _ => hgood w row hw hrow) ?_).bind fun record => ?_
  · exact (prepareSubmit_spec hp).weaken (fun _ h => h.1) (fun _ _ h => h) fun _ h => h
  · exact fun request row _ _ => send_keeps fun w hw hreq => sound_submit hwf hw hreq
  · refine (submissionReceipt_spec.weaken (fun _ h => h.1) (fun _ _ h => h) fun _ h => h).bind
      fun receipt => ?_
    refine (Triple.demand fun _ h => h).bind fun _ => .assume fun _ => ?_
    exact (bindSubmission_spec hwf).bind fun _ => .pure fun _ h => h

/-- `submit_execution` keeps the invariant. -/
theorem submitExecution_keeps : Keeps D .submitExecution := by
  refine keeps_of_business (fun _ wf wf' w => ∃ receipt : SubmissionReceipt,
    (∀ t, w.tasks.get wf.activeTaskId = some t → t.executionId = some receipt.executionId) ∧
    wf' = { wf with
      phase := .waitingForExecutorEvent
      executionId := some receipt.executionId
      currentOperationId := some receipt.operationId }) rfl ?_ ?_ ?_
  · intro rs svc s wf hwf
    exact (submit_spec hwf).bind fun receipt => .pure fun w hw => ⟨⟨receipt, hw.1, rfl⟩, hw.2⟩
  · rintro svc wf _ w ⟨receipt, -, rfl⟩
    rfl
  · rintro svc w s s' wf _ m - ⟨receipt, hexec, rfl⟩ hst ht hnext
    obtain rfl : .registerExecution = m := Option.some.inj (edge_of_successor rfl hnext)
    obtain ⟨hclr, hsingle, -⟩ := ht.stage
    exact ht.moveOn (fun _ h => h) rfl rfl (fun h => absurd h (by simp)) hexec
      ⟨hclr.ran hst (by decide), hsingle, by simp⟩

/-! ## The boundary to the worker -/

/-- The workflow of a session whose Task is active. -/
theorem Inv.workflow (h : Inv D rs w s (some n)) (hb : n ≠ .beginTask) :
    ∃ wf, s.workflow = some wf ∧ s.executionId = wf.executionId := by
  obtain ⟨wf, hwf, -⟩ := h.task n rfl hb
  exact ⟨wf, hwf, (h.owner wf hwf).2.2⟩

/-- `register_execution` keeps the invariant. -/
theorem registerExecution_keeps : Keeps D .registerExecution := by
  refine keeps_of_body (fun _ wf wf' _ => wf' = wf) (by decide) ?_ ?_
  · intro rs config svc s
    refine (Triple.demand fun _ h => h).bind fun x => .assume fun _ => ?_
    refine (Triple.ofExcept fun _ h => h).bind fun _ => .assume fun _ => .pure fun w hw => ?_
    obtain ⟨wf, hwf, hexec⟩ := hw.workflow (by decide)
    exact ⟨⟨wf, wf, ⟨hwf, hwf, rfl, rfl, hexec, rfl⟩, rfl⟩, hw⟩
  · rintro svc w s s' _ wf m - rfl hst ht hnext
    obtain rfl : .waitExternalSignal = m := Option.some.inj (edge_of_successor rfl hnext)
    have hin : InExecution w wf := ht.stage
    exact ht.carry (fun _ h => h) (by decide) rfl rfl rfl (hin.ran hst (by decide) hin.single rfl)

/-- A signal of the state's execution, or a cancellation. -/
theorem waitExternalSignal_spec :
    Triple (fun w => Inv D rs w s (some .waitExternalSignal)) (waitExternalSignal svc s)
      (fun updated w => (∃ wf wf', SameTask s updated wf wf' ∧
          ∃ signal, wf' = { wf with externalSignal := some signal } ∧
            ∀ b, signal = .boundary b → wf.executionId = some b.executionId) ∧
        Inv D rs w s (some .waitExternalSignal)) fun w =>
          Inv D rs w s (some .waitExternalSignal) := by
  refine (Triple.demand fun _ h => h).bind fun raw => .assume fun _ => ?_
  refine (Triple.demand fun _ h => h).bind fun wf => .assume fun hwf => ?_
  cases raw with
  | cancelRequested signal =>
    refine (Triple.refuseIf fun _ h => h).bind fun _ => .assume fun _ => .pure fun w hw => ?_
    obtain ⟨-, -, hexec⟩ := hw.owner wf hwf
    exact ⟨⟨wf, _, ⟨hwf, rfl, rfl, rfl, hexec, rfl⟩, .cancel signal, rfl, nofun⟩, hw⟩
  | worker action =>
    refine (Triple.refuseIf fun _ h => h).bind fun _ => .assume fun _ => ?_
    refine (Triple.refuseIf fun _ h => h).bind fun _ => .assume fun hid => ?_
    refine (Triple.refuseIf fun _ h => h).bind fun _ => .assume fun _ => ?_
    refine (Triple.demand fun _ h => h).bind fun _ => .assume fun _ => .pure fun w hw => ?_
    obtain ⟨-, -, hexec⟩ := hw.owner wf hwf
    refine ⟨⟨wf, _, ⟨hwf, rfl, rfl, rfl, hexec, rfl⟩, _, rfl, fun b hb => ?_⟩, hw⟩
    obtain rfl := ExternalSignal.boundary.inj hb
    exact hexec.symm.trans (not_not.mp hid).symm
  | _ => exact .raise fun _ h => h

/-- `wait_external_signal` keeps the invariant. -/
theorem waitExternalSignal_keeps : Keeps D .waitExternalSignal := by
  refine keeps_of_body (fun _ wf wf' _ => ∃ signal,
    wf' = { wf with externalSignal := some signal } ∧
    ∀ b, signal = .boundary b → wf.executionId = some b.executionId) (by decide)
    (fun _ _ _ _ => waitExternalSignal_spec) ?_
  rintro svc w s s' wf _ m - ⟨signal, rfl, hboundary⟩ hst ht hnext
  have hin : InExecution w wf := ht.stage
  refine ht.carry (fun _ h => h) (by decide) rfl rfl rfl ?_
  have hroute := Except.ok.inj (hst.route rfl hnext)
  cases signal with
  | cancel signal =>
    obtain rfl : .cancelExecution = m := hroute
    exact hin.ran hst (by decide) hin.single rfl
  | boundary signal =>
    obtain rfl : .reconcileExecutor = m := hroute
    exact ⟨hin.ran hst (by decide) hin.single rfl, signal, rfl, hboundary signal rfl⟩

/-! ## Reconciliation -/

/-- Reconciling returns the outcome of the Executor's result and keeps what the update of the
binding keeps. -/
theorem reconcile_spec {signal : ExecutorBoundarySignal}
    (hI : ∀ version sequence,
      Triple I (updateBinding wf.activeTaskId version sequence) (fun _ => I) I) :
    Triple I (reconcile svc wf signal) (fun rec w => (∃ result, svc.result = .ok result ∧
      rec.outcome = executorOutcome result) ∧ I w) I := by
  refine (Triple.ofExcept fun _ h => h).bind fun result => .assume fun hresult => ?_
  refine (Triple.ofExcept fun _ h => h).bind fun summaries => .assume fun _ => ?_
  have hlast : Triple I (updateBinding wf.activeTaskId result.version signal.eventSequence >>=
      fun _ => (pure ⟨executorOutcome result, signal.executionId, result.version,
        result.operations.getLast?.map ResultOperation.operationId,
        result.operations.getLast?.bind ResultOperation.errorMessage,
        result.operations.flatMap ResultOperation.resultRefs, summaries⟩ :
          Run ExecutorReconciliation))
      (fun rec w =>
        (∃ result, svc.result = .ok result ∧ rec.outcome = executorOutcome result) ∧ I w)
      I :=
    (hI _ _).bind fun _ => .pure fun w hw => ⟨⟨result, hresult, rfl⟩, hw⟩
  by_cases hs : executorOutcome result = .operationSucceeded ∨ executorOutcome result = .succeeded
  · simp only [if_pos hs]
    refine (Triple.refuseIf fun _ h => h).bind fun _ => .assume fun _ => ?_
    refine ((Triple.query fun _ h => h).weaken (fun _ h => h) (fun _ _ h => h.2) fun _ h => h).bind
      fun binding => ?_
    refine (Triple.demand fun _ h => h).bind fun _ => .assume fun _ => ?_
    refine (Triple.demand fun _ h => h).bind fun _ => .assume fun _ => ?_
    refine (Triple.refuseIf fun _ h => h).bind fun _ => .assume fun _ => ?_
    exact (Triple.ofExcept fun _ h => h).bind fun _ => .assume fun _ => hlast
  · simp only [if_neg hs]
    exact hlast

/-- `reconcile_executor` keeps the invariant. -/
theorem reconcileExecutor_keeps : Keeps D .reconcileExecutor := by
  refine keeps_of_business (fun svc wf wf' _ => ∃ signal rec result,
    wf.externalSignal = some (.boundary signal) ∧ svc.result = .ok result ∧
    rec.outcome = executorOutcome result ∧ wf' = { wf with
      executorReconciliation := some rec
      lastExecutorEventSequence := some signal.eventSequence }) rfl ?_ ?_ ?_
  · intro rs svc s wf _
    refine (Triple.demand fun _ h => h).bind fun external => .assume fun hexternal => ?_
    refine (Triple.demand fun _ h => h).bind fun signal => .assume fun hsignal => ?_
    refine (reconcile_spec fun _ _ => updateBinding_spec Inv.quietClosed _ _ _).bind fun rec =>
      .assume fun hrec => .pure fun w hw => ?_
    obtain ⟨result, hresult, hout⟩ := hrec
    refine ⟨⟨signal, rec, result, ?_, hresult, hout, rfl⟩, hw⟩
    cases external with
    | boundary b => exact hexternal.trans (by rw [Option.some.inj hsignal])
    | cancel c => exact absurd hsignal (by simp [ExternalSignal.boundary?])
  · rintro svc wf _ w ⟨signal, rec, result, -, -, -, rfl⟩
    rfl
  · rintro svc w s s' wf _ m - ⟨signal, rec, result, hsignal, hresult, hout, rfl⟩ hst ht hnext
    obtain rfl : .recordEventReceipt = m := Option.some.inj (edge_of_successor rfl hnext)
    obtain ⟨hin, signal', hsignal', hid⟩ := ht.stage
    obtain rfl : signal = signal' :=
      ExternalSignal.boundary.inj (Option.some.inj (hsignal.symm.trans hsignal'))
    refine ht.carry (fun _ h => h) (by decide) rfl rfl rfl ?_
    refine ⟨hin.ran hst (by decide) hin.single rfl, result, signal.executionId, rec,
      hid, ?_, rfl, hout, fun hmode hop => ?_⟩
    · rw [hst.runs]
      exact lastSome_concat_some _
        (by simp [NodeRun.reconciled?, hsignal, ExternalSignal.boundary?, hresult])
    · rw [hst.runs]
      refine ⟨_, List.mem_append_right _ (List.mem_singleton.mpr rfl), hmode, ?_⟩
      rw [hresult]
      exact hop.imp (congrArg some) (congrArg some)

/-- Where `route_reconciliation` leads. -/
theorem routeReconciliation_cases {rec : ExecutorReconciliation}
    (hrec : wf.executorReconciliation = some rec) (h : routeReconciliation wf = .ok m) :
    (rec.outcome = .waiting ∧ m = .waitExternalSignal) ∨
      (rec.outcome = .succeeded ∧ m = .buildReportEvidence) ∨
      (rec.outcome = .cancelled ∧ m = .commitCancelled) ∨
      ((wf.executionMode = some .multi ∧
        (rec.outcome = .operationSucceeded ∨ rec.outcome = .operationFailed)) ∧
        m = .adaptMultiPlan) ∨
      (m = .commitFailed ∧ (rec.outcome = .failed ∨ (wf.executionMode ≠ some .multi ∧
        (rec.outcome = .operationSucceeded ∨ rec.outcome = .operationFailed)))) := by
  unfold routeReconciliation at h
  rw [hrec] at h
  simp only [routeKey, bind, Except.bind, pure, Except.pure] at h
  cases hout : rec.outcome with
  | waiting =>
    rw [hout] at h
    exact .inl ⟨rfl, (Except.ok.inj h).symm⟩
  | succeeded =>
    rw [hout] at h
    exact .inr (.inl ⟨rfl, (Except.ok.inj h).symm⟩)
  | cancelled =>
    rw [hout] at h
    exact .inr (.inr (.inl ⟨rfl, (Except.ok.inj h).symm⟩))
  -- These outcomes lead on only in a known mode.
  | failed =>
    rw [hout] at h
    cases hm : wf.executionMode with
    | none =>
      rw [hm] at h
      exact absurd h (by simp)
    | some mode =>
      rw [hm] at h
      exact .inr (.inr (.inr (.inr ⟨by simpa using h.symm, .inl rfl⟩)))
  | operationSucceeded | operationFailed =>
    rw [hout] at h
    cases hm : wf.executionMode with
    | none =>
      rw [hm] at h
      exact absurd h (by simp)
    | some mode =>
      rw [hm] at h
      cases mode with
      | multi => exact .inr (.inr (.inr (.inl ⟨⟨rfl, by simp⟩, by simpa using h.symm⟩)))
      | single => exact .inr (.inr (.inr (.inr ⟨by simpa using h.symm, .inr ⟨by simp, by simp⟩⟩)))

/-- The receipt of an event keeps the invariant. -/
theorem recordEventReceipt_keeps : Keeps D .recordEventReceipt := by
  refine keeps_of_body (fun _ wf wf' _ => wf' = wf) (by decide) ?_ ?_
  · intro rs config svc s
    refine (Triple.demand fun _ h => h).bind fun action => .assume fun _ => .pure fun w hw => ?_
    obtain ⟨wf, hwf, hexec⟩ := hw.workflow (by decide)
    exact ⟨⟨wf, wf, ⟨hwf, hwf, rfl, rfl, hexec, rfl⟩, rfl⟩, hw⟩
  · rintro svc w s s' _ wf m - rfl hst ht hnext
    obtain ⟨hin, result, x, rec, hx, hlast, hrec, hout, hopen⟩ := ht.stage
    refine ht.carry (fun _ h => h) (by decide) rfl rfl rfl ?_
    -- The execution has ended when the outcome says so.
    have hended : executorOutcome result = .succeeded ∨ executorOutcome result = .failed ∨
        executorOutcome result = .cancelled →
        Closing D (nodeRuns (w.logged (.ran .recordEventReceipt svc s s')).log) wf := by
      intro hterminal x' hx'
      obtain rfl : x = x' := Option.some.inj (hx.symm.trans hx')
      refine .inl ⟨result.status, ?_, executorOutcome_terminal hterminal⟩
      rw [hst.runs, lastReconciled_concat (by simp)]
      exact hlast
    rcases routeReconciliation_cases hrec (hst.route rfl hnext) with
      ⟨-, rfl⟩ | ⟨ho, rfl⟩ | ⟨ho, rfl⟩ | ⟨⟨hmode, -⟩, rfl⟩ | ⟨rfl, ho⟩
    · exact hin.ran hst (by decide) hin.single rfl
    · exact hended (.inl (hout.symm.trans ho))
    · exact hended (.inr (.inr (hout.symm.trans ho)))
    · exact ⟨hin.ran hst (by decide) hin.single rfl, hmode⟩
    · rcases ho with ho | ⟨hmode, ho⟩
      · exact hended (.inr (.inl (hout.symm.trans ho)))
      · intro x' _
        right
        rw [hst.runs]
        refine (hopen hmode ?_).concat _
        rw [← hout]
        exact ho

/-! ## Decisions of a MULTI execution -/

/-- What `adapt_multi_plan` decides: FAIL at the correction limit, else what the model says. -/
theorem adapt_spec {rec : ExecutorReconciliation} (hrec : wf.executorReconciliation = some rec) :
    Triple I (adapt D svc wf rec) (fun decision w =>
      ((CorrectionsSpent D wf ∧ decision.action = .fail) ∨ (¬CorrectionsSpent D wf ∧
        ∃ d, svc.multiDecision = .ok d ∧ decision.action = d.action)) ∧ I w) I := by
  have hspent : CorrectionsSpent D wf ↔ rec.outcome = .operationFailed ∧
      D.correctionLimit ≤ wf.correctionCount.getD 0 := by
    simp [CorrectionsSpent, hrec]
  unfold adapt
  by_cases hlimit : rec.outcome = .operationFailed ∧ D.correctionLimit ≤ wf.correctionCount.getD 0
  · rw [if_pos hlimit]
    exact .pure fun w hw => ⟨.inl ⟨hspent.mpr hlimit, rfl⟩, hw⟩
  · rw [if_neg hlimit]
    refine (Triple.demand fun _ h => h).bind fun _ => .assume fun _ => ?_
    refine (Triple.demand fun _ h => h).bind fun _ => .assume fun _ => ?_
    refine (Triple.ofExcept fun _ h => h).bind fun d => .assume fun hd => ?_
    have hno : ¬CorrectionsSpent D wf := fun h => hlimit (hspent.mp h)
    cases d.nextStep with
    | none => exact .pure fun w hw => ⟨.inr ⟨hno, d, hd, rfl⟩, hw⟩
    | some step =>
      refine (Triple.ofExcept fun _ h => h).bind fun step => .assume fun _ => ?_
      exact .pure fun w hw => ⟨.inr ⟨hno, d, hd, rfl⟩, hw⟩

/-- What a node of a Task with the Executor may change without touching the invariant. -/
structure LateStep (wf wf' : WorkflowState) : Prop where
  task : wf'.activeTaskId = wf.activeTaskId
  persisted : wf'.persisted = wf.persisted
  executionId : wf'.executionId = wf.executionId
  planningKind : wf'.planningKind = wf.planningKind
  executionMode : wf'.executionMode = wf.executionMode

/-- A late step leaves a fixed workflow in the mode SINGLE. -/
theorem LateStep.single (h : LateStep wf wf') (hsingle : FixedSingle wf) : FixedSingle wf' := by
  intro hk
  rw [h.executionMode]
  exact hsingle (h.planningKind ▸ hk)

/-- `adapt_multi_plan` keeps the invariant. -/
theorem adaptMultiPlan_keeps : Keeps D .adaptMultiPlan := by
  refine keeps_of_business (fun svc wf wf' _ => LateStep wf wf' ∧
    ∃ action, wf'.multiAction = some action ∧
      ((CorrectionsSpent D wf ∧ action = .fail) ∨ (¬CorrectionsSpent D wf ∧
        ∃ d, svc.multiDecision = .ok d ∧ action = d.action))) rfl ?_ ?_ ?_
  · intro rs svc s wf _
    refine (Triple.demand fun _ h => h).bind fun rec => .assume fun hrec => ?_
    refine (adapt_spec hrec).bind fun decision => .assume fun hdecision => ?_
    cases decision.nextStep with
    | none =>
      exact .pure fun w hw => ⟨⟨⟨rfl, rfl, rfl, rfl, rfl⟩, decision.action, rfl, hdecision⟩, hw⟩
    | some step =>
      refine (Triple.demand fun _ h => h).bind fun plan => .assume fun _ => ?_
      exact .pure fun w hw => ⟨⟨⟨rfl, rfl, rfl, rfl, rfl⟩, decision.action, rfl, hdecision⟩, hw⟩
  · rintro svc wf wf' w ⟨hlate, -⟩
    exact hlate.task
  · -- What the decision leads to, action by action.
    rintro svc w s s' wf wf' m - ⟨hlate, action, haction, hdecision⟩ hst ht hnext
    obtain ⟨hin, hmulti⟩ : InExecution w wf ∧ _ := ht.stage
    have hsingle := hlate.single hin.single
    refine ht.carry (fun _ h => h) (by decide) hlate.task hlate.persisted hlate.executionId ?_
    have hroute := hst.route rfl hnext
    unfold routeMultiAction at hroute
    rw [haction] at hroute
    cases action with
    | appendStep =>
      obtain rfl : .appendOperation = m := Except.ok.inj hroute
      refine ⟨hin.ran hst (by decide) hsingle hlate.executionId, .inl ?_⟩
      rw [hst.runs]
      refine ⟨lastNode_concat _ _, _, List.mem_append_right _ (List.mem_singleton.mpr rfl), rfl, ?_⟩
      rcases hdecision with ⟨-, h⟩ | ⟨hno, d, hd, ha⟩
      · exact absurd h (by decide)
      · exact ⟨hno, by rw [hd]; exact congrArg some ha.symm⟩
    | requireReapproval =>
      -- Only MULTI gets here, so nothing is asked of SINGLE.
      obtain rfl : .compileAndPersistPlan = m := Except.ok.inj hroute
      refine planned_of_cleared (hin.cleared.ran hst (by decide)) fun hk => ?_
      have hmode := hsingle hk
      rw [hlate.executionMode, hmulti] at hmode
      exact absurd hmode (by decide)
    | finalize =>
      obtain rfl : .finalizeExecution = m := Except.ok.inj hroute
      exact hin.ran hst (by decide) hsingle hlate.executionId
    | fail =>
      obtain rfl : .commitFailed = m := Except.ok.inj hroute
      refine closing_of_leavesOpen hst hlate.executionId fun _ => ?_
      rcases hdecision with ⟨hspent, -⟩ | ⟨-, d, hd, ha⟩
      · exact .inl hspent
      · exact .inr (by rw [hd]; exact congrArg some ha.symm)

/-! ## Appending -/

/-- The first Step of a plan with one Step is that of the plan it was made of. -/
theorem firstRow_withStep (taskId : Uuid) (plan : PlanDraft) :
    firstRow D taskId (plan.withStep plan.first) = firstRow D taskId plan := by
  have hfirst : (plan.withStep plan.first).first = plan.first := by
    show { plan.first with sequence := 0 } = plan.first
    rw [← plan.first_sequence]
  unfold firstRow
  rw [hfirst]

/-- The first row that `approved_steps` returns is the compiled first Step of the payload. -/
theorem firstRow_of_head {r : Revision} {revisionId : Uuid} {row : PlanStep}
    (h : Inv D rs w s next) (hr : w.revisions.get revisionId = some r)
    (hhead : (w.approvedSteps revisionId).head? = some row) :
    firstRow D r.taskId r.publicPayload = .ok row := by
  obtain ⟨row', hfirst, hhead'⟩ := (h.revisions revisionId r hr).1
  have happroved : w.approvedSteps revisionId = r.ordered := by
    simp [World.approvedSteps, hr, Revision.ordered]
  rw [happroved, hhead'] at hhead
  rw [hfirst, Option.some.inj hhead]

/-- What `prepare` of an append prepares. -/
theorem prepareAppend_spec {plan : PlanDraft} {x op : Uuid} (hwf : s.workflow = some wf)
    (hplan : wf.plan = some plan) :
    Triple (fun w => Inv D rs w s (some .appendOperation))
      (prepareAppend D svc wf (plan.withStep plan.first) x op)
      (fun request w => AppendRequest D w wf request ∧ Inv D rs w s (some .appendOperation))
      fun w => Inv D rs w s (some .appendOperation) := by
  refine (persist_keeps (n := .appendOperation) hwf ⟨plan, hplan, rfl⟩).bind fun p => ?_
  refine (Triple.query fun _ h => h.2).bind fun rows => ?_
  refine (Triple.query fun _ h => h.2.2).bind fun binding => ?_
  refine (Triple.refuseIf fun _ h => h.2.2.2).bind fun _ => .assume fun _ => ?_
  refine (Triple.demand fun _ h => h.2.2.2).bind fun row => .assume fun hrow => ?_
  refine (Triple.ofExcept fun _ h => h.2.2.2).bind fun _ => .assume fun _ => .pure fun w hw => ?_
  obtain ⟨-, hrows, ⟨-, r, hr⟩, hw⟩ := hw
  refine ⟨⟨binding.executionId, binding.executionVersion, _,
    binding.nextStepSequence + 1, p, plan, row,
    r, binding.nextStepSequence, rfl, hplan, ?_, rfl, hr⟩, hw⟩
  -- The revision is ahead of the state, so its payload is the first Step of the state's plan.
  obtain ⟨wf₀, hwf₀, ht⟩ := hw.task _ rfl (by decide)
  obtain rfl : wf = wf₀ := Option.some.inj (hwf.symm.trans hwf₀)
  have hpayload : r.publicPayload = plan.withStep plan.first := by
    rcases ht.bound p.planRevisionId r hr.stored hr.task with hle | ⟨-, plan', hplan', hp'⟩
    · exact absurd (hr.number.symm.trans_le hle) (Nat.not_succ_le_self _)
    · rw [hp', Option.some.inj (hplan.symm.trans hplan')]
  have hfirst := firstRow_of_head hw hr.stored (Except.ok.inj hrows ▸ hrow)
  rw [hpayload, hr.task] at hfirst
  exact (firstRow_withStep _ _).symm.trans hfirst

/-- An append that leaves hands over a reviewed Step, or one a MULTI decision appended. -/
theorem sound_append {request : ExecutorRequest} (hwf : s.workflow = some wf)
    (hmulti : wf.executionMode = some .multi) (h : Inv D rs w s (some .appendOperation))
    (hreq : AppendRequest D w wf request) : Sound D w.log (.sent wf.activeTaskId request) := by
  obtain ⟨wf₀, hwf₀, ht⟩ := h.task _ rfl (by decide)
  obtain rfl : wf = wf₀ := Option.some.inj (hwf.symm.trans hwf₀)
  obtain ⟨x, v, step, next, p', plan, row, r', sequence, rfl, hplan, hfirst, hstep, -⟩ := hreq
  obtain ⟨-, ⟨hlast, hdirect⟩ | ⟨hlast, happroved⟩⟩ := ht.stage
  · refine ⟨fun _ _ => .inr hdirect, fun _ _ hverify => ?_⟩
    exact absurd (hlast.symm.trans hverify) (by decide)
  · obtain ⟨⟨p₀, r₀, hp₀, hr₀, hpayload⟩, hkind, p, r, review, hrev, happ⟩ := happroved hmulti
    obtain rfl : p = p₀ := Option.some.inj (hrev.persisted.symm.trans hp₀)
    obtain rfl : r = r₀ := Option.some.inj (hrev.stored.symm.trans hr₀)
    -- The Step is the compiled first Step of the revision's payload.
    obtain rfl : plan = r.publicPayload := Option.some.inj (hplan.symm.trans (hpayload hkind))
    obtain ⟨⟨row₀, hrow₀, hhead⟩, hmem⟩ := h.revisions _ r hrev.stored
    obtain ⟨r₁, hr₁, -, htask⟩ := ht.current p hrev.persisted
    obtain rfl : r = r₁ := Option.some.inj (hrev.stored.symm.trans hr₁)
    rw [htask] at hrow₀
    obtain rfl : row = row₀ := Except.ok.inj (hfirst.symm.trans hrow₀)
    obtain ⟨e, he, hreviews⟩ := hrev.gated
    obtain ⟨-, d, hd, hid⟩ := happ
    refine ⟨fun step' hstep' => .inl ?_, fun step' hstep' _ => ?_⟩
    · obtain rfl : step' = step := List.mem_singleton.mp hstep'
      refine ⟨p.planRevisionId, r, review, e, row, he, hreviews, hrev.level, ?_, by rw [hstep]⟩
      exact (List.mem_insertionSort _).mp (List.mem_of_mem_head? hhead)
    · obtain rfl : step = step' := Option.some.inj hstep'
      exact ⟨d, r, row, hd, hid.symm ▸ hmem, hhead, by rw [hstep]⟩

/-- The request stored for the state's revision is one the state has prepared: an earlier one has
another revision among its inputs. -/
theorem appendRequest_of_row {p : PersistedPlan} {x op : Uuid} {plan : PlanDraft}
    {d : MultiDecision} {row : EffectRow} (htells : D.TellsRevision) (hwf : s.workflow = some wf)
    (hp : wf.persisted = some p) (h : Inv D rs w s (some .appendOperation))
    (hrow : w.effects.get (.append wf.activeTaskId op) = some row)
    (hsha : row.inputSha256 = D.inputDigest (.append x op p.planRevisionId plan d)) :
    AppendRequest D w wf row.request := by
  obtain ⟨wf₀, hwf₀, ht⟩ := h.task _ rfl (by decide)
  obtain rfl : wf = wf₀ := Option.some.inj (hwf.symm.trans hwf₀)
  obtain ⟨x', op', revisionId, plan', d', hsha', hcase⟩ := ht.appends op row hrow
  obtain rfl : p.planRevisionId = revisionId := htells (hsha.symm.trans hsha')
  rcases hcase with ⟨r, hr, -, hlt⟩ | ⟨-, -, hreq⟩
  · obtain ⟨r₀, hr₀, hplan, -⟩ := ht.current p hp
    obtain rfl : r = r₀ := Option.some.inj (hr.symm.trans hr₀)
    have hnumber : p.planRevisionNumber = r.revisionNumber := congrArg _ hplan
    have hcurrent : wf.revisionNumber = p.planRevisionNumber := by
      unfold WorkflowState.revisionNumber
      rw [hp]
      rfl
    omega
  · exact hreq

/-- An append returns the plan with its next revision, and keeps the invariant. -/
theorem append_spec {d : MultiDecision} (htells : D.TellsRevision)
    (hwf : s.workflow = some wf) :
    Triple (fun w => Inv D rs w s (some .appendOperation)) (append D svc wf d)
      (fun receipt w =>
        (∃ plan p r, receipt.persistedPlan = some (plan, p) ∧ NextRevision w wf p r) ∧
        Inv D rs w s (some .appendOperation)) fun w => Inv D rs w s (some .appendOperation) := by
  refine (Triple.demand fun _ h => h).bind fun mode => .assume fun hmode => ?_
  refine (Triple.refuseIf fun _ h => h).bind fun _ => .assume fun hmulti => ?_
  obtain rfl := not_not.mp hmulti
  refine (Triple.demand fun _ h => h).bind fun plan => .assume fun hplan => ?_
  refine (Triple.demand fun _ h => h).bind fun op => .assume fun _ => ?_
  refine (Triple.demand fun _ h => h).bind fun x => .assume fun _ => ?_
  refine (Triple.demand fun _ h => h).bind fun p => .assume fun hp => ?_
  refine (journalRun_spec
    (fun request w => AppendRequest D w wf request ∧ Inv D rs w s (some .appendOperation))
    (fun request w => AppendRequest D w wf request) Inv.quietClosed ?_ (fun _ _ h => h.2)
    (fun request w h => h.2.withEffect hwf (.inr ⟨op, rfl, x, op, p.planRevisionId, _, d, rfl,
      .inr ⟨rfl, by rw [hp]; rfl, h.1⟩⟩))
    (fun w row hw hrow hsha => appendRequest_of_row htells hwf hp hw hrow hsha) ?_).bind
      fun record => ?_
  · exact (prepareAppend_spec hwf hplan).weaken (fun _ h => h.1) (fun _ _ h => h) fun _ h => h
  · exact fun request row _ _ => send_keeps fun w hw hreq => sound_append hwf hmode hw hreq
  · -- What the record is stays known while the binding is moved on.
    have hquiet : QuietClosed fun w => AppendRequest D w wf record.request ∧
        Inv D rs w s (some .appendOperation) := fun w w' h hq =>
      ⟨h.1.mono hq.settles.extends, Inv.quietClosed w w' h.2 hq⟩
    refine ((submissionReceipt_spec (I := fun w => AppendRequest D w wf record.request ∧
        Inv D rs w s (some .appendOperation))).weaken
      (fun w h => ⟨appendRequest_of_row htells hwf hp h.1 h.2.1 h.2.2, h.1⟩) (fun _ _ h => h)
      fun _ h => h.2).bind fun receipt => ?_
    refine (Triple.demand fun _ h => h.2).bind fun sequence => .assume fun _ => ?_
    refine ((projectBinding_spec hquiet _ _ _ _ _).weaken (fun _ h => h) (fun _ _ h => h)
      fun _ h => h.2).bind fun _ => ?_
    refine (Triple.demand fun _ h => h.2).bind fun stored => .assume fun hstored => ?_
    refine .pure fun w hw => ⟨?_, hw.2⟩
    obtain ⟨_, _, _, _, p', plan', _, r, _, hreq, -, -, -, hr⟩ := hw.1
    rw [hreq] at hstored
    exact ⟨_, p', r, congrArg some (Option.some.inj hstored).symm, hr⟩

/-- What an append leaves in the workflow, and the invariant that still holds before its
checkpoint. -/
theorem appendOperation_spec (htells : D.TellsRevision) (hwf : s.workflow = some wf) :
    Triple (fun w => Inv D rs w s (some .appendOperation)) (businessNode D svc .appendOperation wf)
      (fun wf' w => (∃ op plan p r, NextRevision w wf p r ∧
          wf' = { wf with currentOperationId := op }.withPersistedPlan plan p) ∧
        Inv D rs w s (some .appendOperation)) fun w => Inv D rs w s (some .appendOperation) := by
  refine (Triple.demand fun _ h => h).bind fun d => .assume fun _ => ?_
  refine (append_spec htells hwf).bind fun receipt => ?_
  cases hplan : receipt.persistedPlan with
  | none =>
    refine .pure fun w hw => ?_
    obtain ⟨⟨plan, p, r, h, -⟩, -⟩ := hw
    exact absurd h (by simp)
  | some stored =>
    refine .pure fun w hw => ?_
    obtain ⟨⟨plan, p, r, h, hr⟩, hw⟩ := hw
    obtain rfl := Option.some.inj h
    exact ⟨⟨some receipt.operationId, plan, p, r, hr, rfl⟩, hw⟩

/-- `append_operation` keeps the invariant. -/
theorem appendOperation_keeps (htells : D.TellsRevision) :
    Keeps D .appendOperation := by
  refine keeps_of_business (fun _ wf wf' w => ∃ op plan p r, NextRevision w wf p r ∧
    wf' = { wf with currentOperationId := op }.withPersistedPlan plan p) rfl
    (fun _ _ _ _ hwf => appendOperation_spec htells hwf) ?_ ?_
  · rintro svc wf _ w ⟨op, plan, p, r, -, rfl⟩
    rfl
  · rintro svc w s s' wf _ m - ⟨op, plan, p, r, hr, rfl⟩ hst ht hnext
    obtain rfl : .waitExternalSignal = m := Option.some.inj (edge_of_successor rfl hnext)
    obtain ⟨hin, -⟩ : InExecution w wf ∧ _ := ht.stage
    exact ht.persisted (by decide) hr rfl rfl rfl (hin.ran hst (by decide) hin.single rfl)

/-! ## Requests without Steps -/

/-- A request without Steps says nothing about Steps. -/
theorem sound_plain {log : List Event} {taskId : Uuid} {request : ExecutorRequest}
    (h : request.steps = []) : Sound D log (.sent taskId request) := by
  refine ⟨fun step hstep => ?_, fun step hstep => ?_⟩
  · rw [h] at hstep
    exact absurd hstep List.not_mem_nil
  · cases request with
    | append => exact absurd h (by simp [ExecutorRequest.steps])
    | _ => exact absurd hstep (by simp [ExecutorRequest.appended?])

/-- The journal of a request without Steps. -/
theorem journalRun_plain {taskId : Uuid} {key : EffectKey} {kind : EffectKind}
    {inputs : EffectInputs} {prepare : Run ExecutorRequest} (hkey : key.startsOperation = false)
    (hprepare : Triple (fun w => Inv D rs w s next) prepare
      (fun request w => request.steps = [] ∧ Inv D rs w s next) fun w => Inv D rs w s next) :
    Triple (fun w => Inv D rs w s next)
      (journalRun D taskId key kind inputs prepare (send svc taskId))
      (fun _ w => Inv D rs w s next) fun w => Inv D rs w s next := by
  refine (journalRun_spec (fun request w => request.steps = [] ∧ Inv D rs w s next)
    (fun request _ => request.steps = []) Inv.quietClosed ?_ (fun _ _ h => h.2)
    (fun request w h => Inv.quietClosed _ _ h.2 (.withEffect hkey h.1))
    (fun w row hw hrow _ => hw.plain key row hkey hrow) ?_).weaken (fun _ h => h)
      (fun _ _ h => h.1) fun _ h => h
  · exact hprepare.weaken (fun _ h => h.1) (fun _ _ h => h) fun _ h => h
  · exact fun request row _ _ => send_keeps fun w _ hreq => sound_plain hreq

/-- `finalize` and `cancel` keep the invariant. -/
theorem lifecycle_spec {kind : EffectKind} {key : EffectKey} {reason : Option String}
    (hkey : key.startsOperation = false) :
    Triple (fun w => Inv D rs w s next) (lifecycle D svc wf kind key reason)
      (fun _ w => Inv D rs w s next) fun w => Inv D rs w s next := by
  refine (Triple.demand fun _ h => h).bind fun x => .assume fun _ => ?_
  refine (journalRun_plain hkey ?_).bind fun record => ?_
  · refine ((Triple.query fun _ h => h).weaken (fun _ h => h) (fun _ _ h => h.2) fun _ h => h).bind
      fun binding => ?_
    refine (Triple.refuseIf fun _ h => h).bind fun _ => .assume fun _ => .pure fun w hw => ⟨?_, hw⟩
    split <;> rfl
  · split
    · exact projectBinding_spec Inv.quietClosed _ _ _ _ _
    · exact .raise fun _ h => h

/-- `finalize_execution` and `cancel_execution`. -/
theorem lifecycle_keeps (hn : n.isBusiness = true) (hroute : routeOf n = none)
    (hedge : edgeOf n = some .waitExternalSignal)
    (hne : n ≠ .reviewRequestRisk ∧ n ≠ .submitExecution)
    (hpend : ∀ wf payload, ¬Pending wf payload n)
    (hstage : ∀ w wf, Stage D w wf n → InExecution w wf)
    (hnode : ∀ (rs : List NodeRun) (svc : Services) (s : SessionState) (wf : WorkflowState),
      Triple (fun w => Inv D rs w s (some n)) (businessNode D svc n wf)
        (fun wf' w => LateStep wf wf' ∧ Inv D rs w s (some n)) fun w => Inv D rs w s (some n)) :
    Keeps D n := by
  refine keeps_of_business (fun _ wf wf' _ => LateStep wf wf') hn
    (fun rs svc s wf _ => hnode rs svc s wf)
    (fun _ _ _ _ h => h.task) ?_
  intro svc w s s' wf wf' m _ hlate hst ht hnext
  obtain rfl : .waitExternalSignal = m :=
    Option.some.inj (hedge.symm.trans (edge_of_successor hroute hnext))
  have hin := hstage w wf ht.stage
  exact ht.carry (hpend wf) hne.2 hlate.task hlate.persisted hlate.executionId
    (hin.ran hst hne.1 (hlate.single hin.single) hlate.executionId)

/-- `finalize_execution` keeps the invariant. -/
theorem finalizeExecution_keeps : Keeps D .finalizeExecution := by
  refine lifecycle_keeps rfl rfl rfl (by decide) (fun _ _ h => h) (fun _ _ h => h)
    fun rs svc s wf => ?_
  exact (lifecycle_spec rfl).bind fun _ => .pure fun w hw => ⟨⟨rfl, rfl, rfl, rfl, rfl⟩, hw⟩

/-- `cancel_execution` keeps the invariant. -/
theorem cancelExecution_keeps : Keeps D .cancelExecution := by
  refine lifecycle_keeps rfl rfl rfl (by decide) (fun _ _ h => h) (fun _ _ h => h)
    fun rs svc s wf => ?_
  refine (Triple.demand fun _ h => h).bind fun external => .assume fun _ => ?_
  refine (Triple.demand fun _ h => h).bind fun signal => .assume fun _ => ?_
  exact (lifecycle_spec rfl).bind fun _ => .pure fun w hw => ⟨⟨rfl, rfl, rfl, rfl, rfl⟩, hw⟩

end

end ExAgent.Graph
