import ExAgent.Graph.Reachable

/-!
# What a node leaves alone

A node works for one Task. The nodes between `begin_task` and the report of a Task commit nothing
that another Task can see, do not close their own, and leave its report effect alone (`Calm`). Of
the workflow they change the few fields they are there for (`Update`). Both are shown once for every
such node, so an invariant about reports, decisions or risks has to look only at the nodes that
write them.
-/

namespace ExAgent.Graph

open Lib Prog

/-- The Task of an effect. -/
def EffectKey.taskId : EffectKey → Uuid
  | .submit taskId _ | .append taskId _ | .finalize taskId | .cancel taskId | .report taskId =>
      taskId

/-- An entry of the log that is neither a completed node nor the end of a Task. -/
def Event.isInner : Event → Bool
  | .persisted .. | .sent .. => true
  | .ran .. | .closed .. => false

/-- A Task that is not closed, and that keeps the execution it has. -/
structure RowKept (t t' : TaskRow) : Prop where
  live : t.status.isTerminal = false → t'.status.isTerminal = false
  execution : ∀ x, t.executionId = some x → t'.executionId = some x

/-- Commits for a Task that do not end it. -/
structure Calm (taskId : Uuid) (w w' : World) : Prop where
  tasks : ∀ id, id ≠ taskId → w'.tasks.get id = w.tasks.get id
  row : Option.Rel RowKept (w.tasks.get taskId) (w'.tasks.get taskId)
  effects : ∀ key : EffectKey, key.taskId ≠ taskId → w'.effects.get key = w.effects.get key
  report : w'.effects.get (.report taskId) = w.effects.get (.report taskId)
  log : ∃ inner, w'.log = w.log ++ inner ∧ ∀ e ∈ inner, e.isInner = true

/-- A Task that is left alone is kept. -/
theorem RowKept.refl (t : TaskRow) : RowKept t t := ⟨id, fun _ h => h⟩

section

variable {taskId : Uuid} {w w' w'' : World}

/-- An absent row is kept, too. -/
theorem rowKept_refl (o : Option TaskRow) : Option.Rel RowKept o o := by
  cases o with
  | none => exact .none
  | some t => exact .some (.refl t)

/-- Rewriting the row of a Task. -/
theorem rowKept_modifyAt {rows : Table Uuid TaskRow} {f : TaskRow → TaskRow}
    (hf : ∀ t, rows.get taskId = some t → RowKept t (f t)) :
    Option.Rel RowKept (rows.get taskId) ((rows.modifyAt taskId f).get taskId) := by
  rw [Table.get_modifyAt, if_pos rfl]
  cases ht : rows.get taskId with
  | none => exact .none
  | some t => exact .some (hf t ht)

/-- The row of a Task after calm commits. -/
theorem Calm.row_some (h : Calm taskId w w') {t : TaskRow} (ht : w.tasks.get taskId = some t) :
    ∃ t', w'.tasks.get taskId = some t' ∧ RowKept t t' := by
  have hrow := h.row
  rw [ht] at hrow
  generalize w'.tasks.get taskId = o at hrow
  cases hrow with
  | some hkept => exact ⟨_, rfl, hkept⟩

/-- The row of a Task before calm commits. -/
theorem Calm.row_of_some (h : Calm taskId w w') {t' : TaskRow}
    (ht' : w'.tasks.get taskId = some t') :
    ∃ t, w.tasks.get taskId = some t ∧ RowKept t t' := by
  have hrow := h.row
  rw [ht'] at hrow
  generalize w.tasks.get taskId = o at hrow
  cases hrow with
  | some hkept => exact ⟨_, rfl, hkept⟩

/-- No commit at all is calm. -/
theorem Calm.refl (taskId : Uuid) (w : World) : Calm taskId w w :=
  ⟨fun _ _ => rfl, rowKept_refl _, fun _ _ => rfl, rfl, [], by simp, by simp⟩

/-- Calm commits stay calm one after another. -/
theorem Calm.trans (h : Calm taskId w w') (h' : Calm taskId w' w'') : Calm taskId w w'' where
  tasks id hid := (h'.tasks id hid).trans (h.tasks id hid)
  row := by
    cases ht : w.tasks.get taskId with
    | none =>
      have hrow := h.row
      rw [ht] at hrow
      generalize hrow' : w'.tasks.get taskId = o at hrow
      cases hrow with
      | none =>
        have hrow'' := h'.row
        rw [hrow'] at hrow''
        generalize w''.tasks.get taskId = o at hrow''
        cases hrow'' with
        | none => exact .none
    | some t =>
      obtain ⟨t', ht', hkept⟩ := h.row_some ht
      obtain ⟨t'', ht'', hkept'⟩ := h'.row_some ht'
      rw [ht'']
      exact .some ⟨fun hl => hkept'.live (hkept.live hl),
        fun x hx => hkept'.execution x (hkept.execution x hx)⟩
  effects key hkey := (h'.effects key hkey).trans (h.effects key hkey)
  report := h'.report.trans h.report
  log := by
    obtain ⟨inner, hlog, hinner⟩ := h.log
    obtain ⟨inner', hlog', hinner'⟩ := h'.log
    refine ⟨inner ++ inner', by rw [hlog', hlog, List.append_assoc], fun e he => ?_⟩
    exact (List.mem_append.mp he).elim (hinner e) (hinner' e)

/-- Commits that leave the Tasks, the effects and the log as they are. -/
theorem Calm.of_eq (ht : w'.tasks = w.tasks) (he : w'.effects = w.effects) (hl : w'.log = w.log) :
    Calm taskId w w' :=
  ⟨fun _ _ => by rw [ht], ht ▸ rowKept_refl _, fun _ _ => by rw [he], by rw [he], [], by simp [hl],
    by simp⟩

/-- One more entry of the log. -/
theorem Calm.of_log {e : Event} (he : e.isInner = true) (ht : w'.tasks = w.tasks)
    (heff : w'.effects = w.effects) (hl : w'.log = w.log ++ [e]) : Calm taskId w w' := by
  refine ⟨fun _ _ => by rw [ht], ht ▸ rowKept_refl _, fun _ _ => by rw [heff], by
    rw [heff], [e], hl, ?_⟩
  simpa using he

/-- A new row of the Task, and nothing else that is looked at. -/
theorem Calm.of_row {f : TaskRow → TaskRow} (ht : w'.tasks = w.tasks.modifyAt taskId f)
    (he : w'.effects = w.effects) (hl : w'.log = w.log)
    (hf : ∀ t, w.tasks.get taskId = some t → RowKept t (f t)) : Calm taskId w w' := by
  refine ⟨fun id hid => ?_, ht ▸ rowKept_modifyAt hf, fun _ _ => by rw [he], by
    rw [he], [], by simp [hl], by simp⟩
  rw [ht, Table.get_modifyAt, if_neg hid]

/-- An effect of the Task other than its report. -/
theorem Calm.of_effects (heff : ∀ key : EffectKey, key.taskId ≠ taskId ∨ key = .report taskId →
      w'.effects.get key = w.effects.get key) (ht : w'.tasks = w.tasks) (hl : w'.log = w.log) :
    Calm taskId w w' :=
  ⟨fun _ _ => by rw [ht], ht ▸ rowKept_refl _, fun key hkey => heff key (.inl hkey),
    heff _ (.inr rfl), [], by simp [hl], by simp⟩

end

/-! ## Transactions -/

section

variable {D : Deployment} {svc : Services} {taskId : Uuid} {w₀ : World} {wf : WorkflowState}

/-- A transaction whose commits are calm. -/
theorem transact_calm {α : Type} {f : World → Except Raised (α × World)}
    (hf : ∀ w a w', f w = .ok (a, w') → Calm taskId w w') :
    Triple (Calm taskId w₀) (.transact f : Run α) (fun _ => Calm taskId w₀) (Calm taskId w₀) :=
  .transact (fun w hw a w' h => ⟨hw.trans (hf w a w' h), hw.trans (hf w a w' h)⟩) fun _ h => h

/-- A status is written to a row that is there. -/
theorem updateStatus_row {status : TaskStatus} (hstatus : status.isTerminal = false) :
    Triple (Calm taskId w₀) (updateStatus taskId status)
      (fun _ w => w.tasks.get taskId ≠ none ∧ Calm taskId w₀ w) (Calm taskId w₀) := by
  refine .transact (fun w hw a w' h => ?_) fun _ h => h
  split at h
  · exact absurd h (by simp)
  · rename_i t ht
    obtain ⟨-, rfl⟩ : a = () ∧ _ = w' := by simpa using h
    have hcalm : Calm taskId w { w with
      tasks := w.tasks.modifyAt taskId fun t => { t with status } } :=
      .of_row (f := fun t => { t with status }) rfl rfl rfl fun _ _ =>
        ⟨fun _ => hstatus, fun _ h => h⟩
    refine ⟨hw.trans hcalm, ?_, hw.trans hcalm⟩
    show (w.tasks.modifyAt taskId _).get taskId ≠ none
    rw [Table.get_modifyAt, if_pos rfl, ht]
    simp

/-- A status that is no end is written calmly. -/
theorem updateStatus_calm {status : TaskStatus} (hstatus : status.isTerminal = false) :
    Triple (Calm taskId w₀) (updateStatus taskId status) (fun _ => Calm taskId w₀)
      (Calm taskId w₀) :=
  (updateStatus_row hstatus).weaken (fun _ h => h) (fun _ _ h => h.2) fun _ h => h

/-- The session lock is taken calmly. -/
theorem lockSession_calm : Triple (Calm taskId w₀) (lockSession taskId)
    (fun _ => Calm taskId w₀) (Calm taskId w₀) := by
  refine transact_calm fun w a w' h => ?_
  split at h
  · exact absurd h (by simp)
  · split at h
    · split at h
      · exact absurd h (by simp)
      · obtain ⟨-, rfl⟩ : a = () ∧ w = w' := by simpa using h
        exact .refl taskId w
    · obtain ⟨-, rfl⟩ : a = () ∧ _ = w' := by simpa using h
      exact .of_eq rfl rfl rfl

/-- The binding is updated calmly. -/
theorem updateBinding_calm {version sequence : ℕ} :
    Triple (Calm taskId w₀) (updateBinding taskId version sequence) (fun _ => Calm taskId w₀)
      (Calm taskId w₀) := by
  refine transact_calm fun w a w' h => ?_
  split at h
  · exact absurd h (by simp)
  · obtain ⟨-, rfl⟩ : a = () ∧ _ = w' := by simpa using h
    exact .of_eq rfl rfl rfl

/-- A receipt is projected calmly. -/
theorem projectBinding_calm {x : Uuid} {version : ℕ} {op : Option Uuid} {next : Option ℕ}
    {create : Bool} : Triple (Calm taskId w₀) (projectBinding taskId x version op next create)
      (fun _ => Calm taskId w₀) (Calm taskId w₀) := by
  refine projectBinding_cases (fun _ h => h) (fun w b b' hw _ _ _ => ?_)
    fun w b task _ hw _ htask hfree hid => ?_
  · have hcalm := hw.trans (.of_eq rfl rfl rfl :
      Calm taskId w { w with bindings := w.bindings.modifyAt taskId fun _ => b' })
    exact ⟨hcalm, hcalm⟩
  · -- The Task had no execution, or this one.
    have hkept : ∀ t, w.tasks.get taskId = some t →
        RowKept t { t with executionId := some b.executionId } := by
      intro t ht
      obtain rfl : task = t := Option.some.inj (htask.symm.trans ht)
      refine ⟨id, fun y hy => ?_⟩
      rcases hfree with hnone | hsome
      · exact absurd (hnone.symm.trans hy) (by simp)
      · rw [← hy, hsome, hid]
    have hcalm := hw.trans (.of_row rfl rfl rfl hkept : Calm taskId w (w.withBinding taskId b))
    exact ⟨hcalm, hcalm⟩

/-- `persist` is calm. -/
theorem persist_calm {plan : PlanDraft} :
    Triple (Calm wf.activeTaskId w₀) (persist D svc wf plan) (fun _ => Calm wf.activeTaskId w₀)
      (Calm wf.activeTaskId w₀) := by
  refine (persist_spec fun w row revisions r hw _ _ _ _ _ => ?_).weaken (fun _ h => h)
    (fun _ _ h => h.2) fun _ h => h
  exact hw.trans (.of_log (e := .persisted svc.newRevisionId r) rfl rfl rfl rfl)

/-! ## The journal -/

/-- A request leaves calmly. -/
theorem send_calm {request : ExecutorRequest} :
    Triple (Calm taskId w₀) (send svc taskId request) (fun _ => Calm taskId w₀)
      (Calm taskId w₀) := by
  refine (Triple.ofExcept fun _ h => h).bind fun _ => .assume fun _ => ?_
  have hpost : Triple (Calm taskId w₀) (post taskId request) (fun _ => Calm taskId w₀)
      (Calm taskId w₀) := by
    refine transact_calm fun w a w' h => ?_
    obtain ⟨-, rfl⟩ : () = a ∧ _ = w' := by simpa using h
    exact .of_log (e := .sent taskId request) rfl rfl rfl rfl
  refine hpost.bind fun _ => ?_
  split
  · exact (Triple.ofExcept fun _ h => h).bind fun _ => .assume fun _ => .pure fun _ h => h
  · refine (Triple.ofExcept fun _ h => h).bind fun _ => .assume fun _ => ?_
    refine (Triple.refuseIf fun _ h => h).bind fun _ => .assume fun _ => ?_
    exact (Triple.refuseIf fun _ h => h).bind fun _ => .assume fun _ => .pure fun _ h => h

/-- Any effect of the Task but its report. -/
structure EffectKey.OtherThanReport (key : EffectKey) (taskId : Uuid) : Prop where
  task : key.taskId = taskId
  report : key ≠ .report taskId

/-- Another key than one that differs from the report's. -/
theorem EffectKey.OtherThanReport.ne {key key' : EffectKey} (h : key.OtherThanReport taskId)
    (hkey : key'.taskId ≠ taskId ∨ key' = .report taskId) : key' ≠ key := by
  rintro rfl
  rcases hkey with hne | heq
  · exact hne h.task
  · exact h.report heq

/-- An effect other than a report is prepared calmly. -/
theorem prepareEffect_calm {key : EffectKey} {kind : EffectKind} {sha : Sha256}
    {request : ExecutorRequest} (hkey : key.OtherThanReport taskId) :
    Triple (Calm taskId w₀) (prepareEffect D key taskId kind sha request) (fun _ => Calm taskId w₀)
      (Calm taskId w₀) := by
  refine (prepareEffect_spec key taskId kind sha request (fun _ h => h) fun w hw => ?_).weaken
    (fun _ h => h) (fun _ _ h => h.1) fun _ h => h
  refine hw.trans (.of_effects (fun key' hkey' => ?_) rfl rfl)
  exact (Table.get_insertIfAbsent _ _ _ _).trans (if_neg (hkey.ne hkey'))

/-- An effect other than a report is completed calmly. -/
theorem completeEffect_calm {key : EffectKey} {response : EffectResponse}
    (hkey : key.OtherThanReport taskId) :
    Triple (Calm taskId w₀) (completeEffect D key response) (fun _ => Calm taskId w₀)
      (Calm taskId w₀) := by
  refine transact_calm fun w a w' h => ?_
  split at h
  · exact absurd h (by simp)
  · split at h
    · split at h
      · exact absurd h (by simp)
      · split at h
        · exact absurd h (by simp)
        · obtain ⟨-, rfl⟩ : _ = a ∧ w = w' := by simpa using h
          exact .refl taskId w
    · dsimp only at h
      split at h
      · exact absurd h (by simp)
      · obtain ⟨-, rfl⟩ : _ = a ∧ _ = w' := by simpa using h
        refine .of_effects (fun key' hkey' => ?_) rfl rfl
        exact (Table.get_modifyAt _ _ _ _).trans (if_neg (hkey.ne hkey'))

/-- An effect other than a report is calm when the making of its request is. -/
theorem journalRun_calm {key : EffectKey} {kind : EffectKind} {inputs : EffectInputs}
    {prepare : Run ExecutorRequest} (hkey : key.OtherThanReport taskId)
    (hprepare : Triple (Calm taskId w₀) prepare (fun _ => Calm taskId w₀) (Calm taskId w₀)) :
    Triple (Calm taskId w₀) (journalRun D taskId key kind inputs prepare (send svc taskId))
      (fun _ => Calm taskId w₀) (Calm taskId w₀) := by
  refine ((getEffect_spec key).weaken (fun _ h => h) (fun _ _ h => h.1) fun _ h => h).bind
    fun found => ?_
  have hstored : Triple (Calm taskId w₀) (storedRecord D taskId key kind inputs prepare found)
      (fun _ => Calm taskId w₀) (Calm taskId w₀) := by
    cases found with
    | some record => exact .pure fun _ h => h
    | none => exact hprepare.bind fun request => prepareEffect_calm hkey
  refine hstored.bind fun record => ?_
  refine (Triple.refuseIf fun _ h => h).bind fun _ => .assume fun _ => ?_
  unfold completedRecord
  cases record.response with
  | some _ => exact .pure fun _ h => h
  | none => exact send_calm.bind fun _ => completeEffect_calm hkey

end

/-! ## Nodes -/

/-- What a node does to the fields it is there for. -/
def Update.Own (svc : Services) (wf wf' : WorkflowState) : Node → Prop
  | .reviewRequestRisk => ∃ review, svc.requestReview = .ok review ∧ wf'.requestRisk = some review
  | .confirmRequestRisk => wf'.requestRisk = wf.requestRisk ∨
    ∃ review : RiskReview, wf'.requestRisk = some { review with level := .critical }
  | .reviewPlan => wf.persisted ≠ none ∧ ∃ d, svc.resume = some (.planReview d) ∧
    wf'.reviewAction = some (some d.decision)
  | .reviewCompiledCodeRisk => wf'.planningKind = wf.planningKind ∧
    wf'.riskAcknowledged = wf.riskAcknowledged ∧
    ∃ review, svc.codeReview = .ok review ∧ wf'.codeRisk = some review
  | .buildReportEvidence => ∃ x evidence, wf.executionId = some x ∧
    svc.result = .ok evidence.executorResult ∧ wf'.reportEvidence = some evidence
  | _ => True

/-- A node changes the risk of the request, the decision on the plan, the kind of planning and the
execution only where it is its purpose, and never takes the stored plan away. -/
structure Update (svc : Services) (n : Node) (wf wf' : WorkflowState) : Prop where
  task : wf'.activeTaskId = wf.activeTaskId
  executionId : n ≠ .submitExecution → wf'.executionId = wf.executionId
  requestRisk : n ≠ .reviewRequestRisk → n ≠ .confirmRequestRisk → wf'.requestRisk = wf.requestRisk
  reviewAction : n ≠ .chooseWorkflow → n ≠ .reviewPlan → wf'.reviewAction = wf.reviewAction
  persisted : wf.persisted ≠ none → wf'.persisted ≠ none
  /-- A fixed workflow comes with the approval of its choice. -/
  planningKind : wf'.planningKind = some .fixedWorkflow → wf.planningKind = some .fixedWorkflow ∨
    (n = .chooseWorkflow ∧ wf'.reviewAction = some (some .approve))
  own : Update.Own svc wf wf' n

/-- The nodes that neither write the report of a Task nor end it. -/
def Node.isCalm : Node → Bool
  | .beginTask | .generateReport | .commitAnswer | .commitSuccess | .commitRejected | .commitBlocked
  | .commitFailed | .commitCancelled => false
  | _ => true

/-- The contract of a calm business node. -/
def CalmNode (D : Deployment) (n : Node) : Prop :=
  ∀ (svc : Services) (wf : WorkflowState) (w₀ : World),
    Triple (Calm wf.activeTaskId w₀) (businessNode D svc n wf)
      (fun wf' w =>
        (Update svc n wf wf' ∧ (n = .hydrateTurn → w.tasks.get wf.activeTaskId ≠ none)) ∧
        Calm wf.activeTaskId w₀ w) (Calm wf.activeTaskId w₀)

section

variable {D : Deployment} {svc : Services} {wf : WorkflowState} {n : Node} {w₀ : World}

/-- A node other than `hydrate_turn` has an update to show. -/
theorem calmNode_of_update (hn : n ≠ .hydrateTurn)
    (h : ∀ svc wf w₀, Triple (Calm wf.activeTaskId w₀) (businessNode D svc n wf)
      (fun wf' w => Update svc n wf wf' ∧ Calm wf.activeTaskId w₀ w) (Calm wf.activeTaskId w₀)) :
    CalmNode D n := by
  intro svc wf w₀
  exact (h svc wf w₀).weaken (fun _ h => h) (fun wf' w hw => ⟨⟨hw.1, fun h => absurd h hn⟩, hw.2⟩)
    fun _ h => h

/-- `hydrate_turn` is calm. -/
theorem hydrateTurn_calm : CalmNode D .hydrateTurn := by
  intro svc wf w₀
  refine (updateStatus_row rfl).bind fun _ => .pure fun w hw => ⟨⟨?_, fun _ => hw.1⟩, hw.2⟩
  exact ⟨rfl, fun _ => rfl, fun _ _ => rfl, fun _ _ => rfl, id, .inl, trivial⟩

/-- `classify_intent` is calm. -/
theorem classifyIntent_calm : CalmNode D .classifyIntent := by
  refine calmNode_of_update (by decide) fun svc wf w₀ => ?_
  refine classifyIntent_spec.weaken (fun _ h => h) (fun wf' w h => ⟨?_, h.2⟩) fun _ h => h
  obtain ⟨decision, kind, mode, hkind, rfl⟩ := h.1
  exact ⟨rfl, fun _ => rfl, fun _ _ => rfl, fun _ _ => rfl, id, fun h => .inl (hkind h), trivial⟩

/-- `clarify_request` is calm. -/
theorem clarifyRequest_calm : CalmNode D .clarifyRequest := by
  refine calmNode_of_update (by decide) fun svc wf w₀ => ?_
  refine clarifyRequest_spec.weaken (fun _ h => h) (fun wf' w h => ⟨?_, h.2⟩) fun _ h => h
  obtain ⟨message, count, rfl⟩ := h.1
  exact ⟨rfl, fun _ => rfl, fun _ _ => rfl, fun _ _ => rfl, id, .inl, trivial⟩

/-- `choose_execution_mode` is calm. -/
theorem chooseExecutionMode_calm : CalmNode D .chooseExecutionMode := by
  refine calmNode_of_update (by decide) fun svc wf w₀ => ?_
  refine chooseExecutionMode_spec.weaken (fun _ h => h) (fun wf' w h => ⟨?_, h.2⟩) fun _ h => h
  obtain ⟨mode, rfl⟩ := h.1
  exact ⟨rfl, fun _ => rfl, fun _ _ => rfl, fun _ _ => rfl, id, nofun, trivial⟩

/-- An answer is written into the state calmly. -/
theorem answerQuestion_calm :
    Triple (Calm wf.activeTaskId w₀) (answerQuestion svc wf)
      (fun wf' w => (∃ answer, wf' = { wf with phase := .answering, answer := some answer }) ∧
        Calm wf.activeTaskId w₀ w) (Calm wf.activeTaskId w₀) := by
  refine (updateStatus_calm rfl).bind fun _ => ?_
  refine (Triple.ofExcept fun _ h => h).bind fun answer => .assume fun _ => ?_
  exact .pure fun w hw => ⟨⟨answer, rfl⟩, hw⟩

/-- Both nodes that answer are calm. -/
theorem answer_calm (hn : n = .answerGeneral ∨ n = .answerDataQuestion) : CalmNode D n := by
  have hne : n ≠ .hydrateTurn := by rcases hn with rfl | rfl <;> decide
  refine calmNode_of_update hne fun svc wf w₀ => ?_
  have hbody : businessNode D svc n wf = answerQuestion svc wf := by
    rcases hn with rfl | rfl <;> rfl
  have hown : ∀ wf', Update.Own svc wf wf' n := by
    rcases hn with rfl | rfl <;> exact fun _ => trivial
  rw [hbody]
  refine answerQuestion_calm.weaken (fun _ h => h) (fun wf' w h => ⟨?_, h.2⟩) fun _ h => h
  obtain ⟨answer, rfl⟩ := h.1
  exact ⟨rfl, fun _ => rfl, fun _ _ => rfl, fun _ _ => rfl, id, .inl, hown _⟩

/-- `review_request_risk` is calm. -/
theorem reviewRequestRisk_calm : CalmNode D .reviewRequestRisk := by
  refine calmNode_of_update (by decide) fun svc wf w₀ => ?_
  refine reviewRequestRisk_spec.weaken (fun _ h => h) (fun wf' w h => ⟨?_, h.2⟩) fun _ h => h
  obtain ⟨review, hreview, rfl⟩ := h.1
  exact ⟨rfl, fun _ => rfl, fun hne _ => absurd rfl hne, fun _ _ => rfl, id, .inl,
    review, hreview, rfl⟩

/-- `confirm_request_risk` is calm. -/
theorem confirmRequestRisk_calm : CalmNode D .confirmRequestRisk := by
  refine calmNode_of_update (by decide) fun svc wf w₀ => ?_
  refine confirmRequestRisk_spec.weaken (fun _ h => h) (fun wf' w h => ⟨?_, h.2⟩) fun _ h => h
  rcases h.1 with ⟨-, rfl⟩ | ⟨review, rfl⟩
  · exact ⟨rfl, fun _ => rfl, fun _ hne => absurd rfl hne, fun _ _ => rfl, id, .inl, .inl rfl⟩
  · exact ⟨rfl, fun _ => rfl, fun _ hne => absurd rfl hne, fun _ _ => rfl, id, .inl,
      .inr ⟨review, rfl⟩⟩

/-- `search_workflows` is calm. -/
theorem searchWorkflows_calm : CalmNode D .searchWorkflows := by
  refine calmNode_of_update (by decide) fun svc wf w₀ => ?_
  refine searchWorkflows_spec.weaken (fun _ h => h) (fun wf' w h => ⟨?_, h.2⟩) fun _ h => h
  obtain ⟨candidates, rfl⟩ := h.1
  exact ⟨rfl, fun _ => rfl, fun _ _ => rfl, fun _ _ => rfl, id, nofun, trivial⟩

/-- `choose_workflow` is calm. -/
theorem chooseWorkflow_calm : CalmNode D .chooseWorkflow := by
  refine calmNode_of_update (by decide) fun svc wf w₀ => ?_
  refine chooseWorkflow_spec.weaken (fun _ h => h) (fun wf' w h => ⟨?_, h.2⟩) fun _ h => h
  obtain ⟨d, ⟨candidate, -, rfl⟩ | rfl⟩ := h.1
  · exact ⟨rfl, fun _ => rfl, fun _ _ => rfl, fun hne _ => absurd rfl hne, id,
      fun _ => .inr ⟨rfl, rfl⟩, trivial⟩
  · exact ⟨rfl, fun _ => rfl, fun _ _ => rfl, fun hne _ => absurd rfl hne, id, nofun, trivial⟩

/-- `load_selected_workflow` is calm. -/
theorem loadSelectedWorkflow_calm : CalmNode D .loadSelectedWorkflow := by
  refine calmNode_of_update (by decide) fun svc wf w₀ => ?_
  have hload : Triple (Calm wf.activeTaskId w₀) (loadSelected D svc wf)
      (fun _ => Calm wf.activeTaskId w₀) (Calm wf.activeTaskId w₀) := by
    refine (Triple.demand fun _ h => h).bind fun _ => .assume fun _ => ?_
    refine (Triple.demand fun _ h => h).bind fun _ => .assume fun _ => ?_
    refine (Triple.demand fun _ h => h).bind fun _ => .assume fun _ => ?_
    refine (Triple.ofExcept fun _ h => h).bind fun _ => .assume fun _ => ?_
    refine (Triple.refuseIf fun _ h => h).bind fun _ => .assume fun _ => ?_
    refine (Triple.ofExcept fun _ h => h).bind fun _ => .assume fun _ => ?_
    exact persist_calm.bind fun _ => .pure fun _ h => h
  refine hload.bind fun out => .pure fun w hw => ⟨?_, hw⟩
  exact ⟨rfl, fun _ => rfl, fun _ _ => rfl, fun _ _ => rfl, fun _ => nofun, .inl, trivial⟩

/-- `build_plan` is calm. -/
theorem buildPlan_calm : CalmNode D .buildPlan := by
  refine calmNode_of_update (by decide) fun svc wf w₀ => ?_
  refine (updateStatus_calm rfl).bind fun _ => ?_
  refine (Triple.demand fun _ h => h).bind fun _ => .assume fun _ => ?_
  refine (Triple.demand fun _ h => h).bind fun _ => .assume fun _ => ?_
  refine (Triple.demand fun _ h => h).bind fun _ => .assume fun _ => ?_
  refine (Triple.refuseIf fun _ h => h).bind fun _ => .assume fun _ => ?_
  refine (Triple.ofExcept fun _ h => h).bind fun plan => .assume fun _ => .pure fun w hw => ⟨?_, hw⟩
  exact ⟨rfl, fun _ => rfl, fun _ _ => rfl, fun _ _ => rfl, id, .inl, trivial⟩

/-- `compile_and_persist_plan` is calm. -/
theorem compileAndPersistPlan_calm : CalmNode D .compileAndPersistPlan := by
  refine calmNode_of_update (by decide) fun svc wf w₀ => ?_
  refine (Triple.demand fun _ h => h).bind fun plan => .assume fun _ => ?_
  refine persist_calm.bind fun p => .pure fun w hw => ⟨?_, hw⟩
  exact ⟨rfl, fun _ => rfl, fun _ _ => rfl, fun _ _ => rfl, fun _ => nofun, .inl, trivial⟩

/-- `review_compiled_code_risk` is calm. -/
theorem reviewCompiledCodeRisk_calm : CalmNode D .reviewCompiledCodeRisk := by
  refine calmNode_of_update (by decide) fun svc wf w₀ => ?_
  refine reviewCompiledCodeRisk_spec.weaken (fun _ h => h) (fun wf' w h => ⟨?_, h.2⟩) fun _ h => h
  obtain ⟨review, hreview, rfl⟩ := h.1
  exact ⟨rfl, fun _ => rfl, fun _ _ => rfl, fun _ _ => rfl, id, .inl, rfl, rfl,
    review, hreview, rfl⟩

/-- `review_plan` is calm. -/
theorem reviewPlan_calm : CalmNode D .reviewPlan := by
  refine calmNode_of_update (by decide) fun svc wf w₀ => ?_
  refine reviewPlan_spec.weaken (fun _ h => h) (fun wf' w h => ⟨?_, h.2⟩) fun _ h => h
  obtain ⟨d, hverdict, rfl⟩ := h.1
  refine ⟨rfl, fun _ => rfl, fun _ _ => rfl, fun _ hne => absurd rfl hne, id, .inl, ?_,
    d, hverdict.resume, rfl⟩
  obtain ⟨p, hp, -⟩ := hverdict.revision
  rw [hp]
  simp

/-- `verify_approval` is calm. -/
theorem verifyApproval_calm : CalmNode D .verifyApproval := by
  refine calmNode_of_update (by decide) fun svc wf w₀ => ?_
  have hverify : Triple (Calm wf.activeTaskId w₀) (verifyApprovalAndLock wf)
      (fun _ => Calm wf.activeTaskId w₀) (Calm wf.activeTaskId w₀) := by
    refine (Triple.refuseIf fun _ h => h).bind fun _ => .assume fun _ => ?_
    refine (Triple.demand fun _ h => h).bind fun _ => .assume fun _ => ?_
    refine validatePlanExecutionMode_spec.bind fun _ => .assume fun _ => ?_
    refine lockSession_calm.bind fun _ => ?_
    exact updateStatus_calm rfl
  refine hverify.bind fun _ => .pure fun w hw => ⟨?_, hw⟩
  exact ⟨rfl, fun _ => rfl, fun _ _ => rfl, fun _ _ => rfl, id, .inl, trivial⟩

/-! ## Nodes that talk to the Executor -/

/-- `submit_execution` is calm. -/
theorem submitExecution_calm : CalmNode D .submitExecution := by
  refine calmNode_of_update (by decide) fun svc wf w₀ => ?_
  have hsubmit : Triple (Calm wf.activeTaskId w₀) (submit D svc wf)
      (fun _ => Calm wf.activeTaskId w₀) (Calm wf.activeTaskId w₀) := by
    refine (Triple.demand fun _ h => h).bind fun plan => .assume fun _ => ?_
    refine validatePlanExecutionMode_spec.bind fun _ => .assume fun _ => ?_
    refine (Triple.demand fun _ h => h).bind fun p => .assume fun _ => ?_
    refine (Triple.demand fun _ h => h).bind fun mode => .assume fun _ => ?_
    have hkey : (EffectKey.submit wf.activeTaskId p.planRevisionNumber).OtherThanReport
      wf.activeTaskId := ⟨rfl, nofun⟩
    refine (journalRun_calm hkey ?_).bind fun record => ?_
    · refine ((Triple.query fun _ h => h).weaken (fun _ h => h) (fun _ _ h => h.2)
        fun _ h => h).bind
        fun rows => ?_
      refine (Triple.refuseIf fun _ h => h).bind fun _ => .assume fun _ => ?_
      exact (Triple.ofExcept fun _ h => h).bind fun _ => .assume fun _ => .pure fun _ h => h
    · refine submissionReceipt_spec.bind fun receipt => ?_
      refine (Triple.demand fun _ h => h).bind fun _ => .assume fun _ => ?_
      exact projectBinding_calm.bind fun _ => .pure fun _ h => h
  refine hsubmit.bind fun receipt => .pure fun w hw => ⟨?_, hw⟩
  exact ⟨rfl, fun hne => absurd rfl hne, fun _ _ => rfl, fun _ _ => rfl, id, .inl, trivial⟩

/-- `reconcile_executor` is calm. -/
theorem reconcileExecutor_calm : CalmNode D .reconcileExecutor := by
  refine calmNode_of_update (by decide) fun svc wf w₀ => ?_
  refine (Triple.demand fun _ h => h).bind fun external => .assume fun _ => ?_
  refine (Triple.demand fun _ h => h).bind fun signal => .assume fun _ => ?_
  refine (reconcile_spec fun _ _ => updateBinding_calm).bind fun rec => .assume fun _ => ?_
  refine .pure fun w hw => ⟨?_, hw⟩
  exact ⟨rfl, fun _ => rfl, fun _ _ => rfl, fun _ _ => rfl, id, .inl, trivial⟩

/-- `adapt_multi_plan` is calm. -/
theorem adaptMultiPlan_calm : CalmNode D .adaptMultiPlan := by
  refine calmNode_of_update (by decide) fun svc wf w₀ => ?_
  refine (Triple.demand fun _ h => h).bind fun rec => .assume fun hrec => ?_
  refine (adapt_spec hrec).bind fun decision => .assume fun _ => ?_
  cases decision.nextStep with
  | none =>
    refine .pure fun w hw => ⟨?_, hw⟩
    exact ⟨rfl, fun _ => rfl, fun _ _ => rfl, fun _ _ => rfl, id, .inl, trivial⟩
  | some step =>
    refine (Triple.demand fun _ h => h).bind fun plan => .assume fun _ => .pure fun w hw => ⟨?_, hw⟩
    exact ⟨rfl, fun _ => rfl, fun _ _ => rfl, fun _ _ => rfl, id, .inl, trivial⟩

/-- An append is calm. -/
theorem append_calm {d : MultiDecision} :
    Triple (Calm wf.activeTaskId w₀) (append D svc wf d) (fun _ => Calm wf.activeTaskId w₀)
      (Calm wf.activeTaskId w₀) := by
  refine (Triple.demand fun _ h => h).bind fun mode => .assume fun _ => ?_
  refine (Triple.refuseIf fun _ h => h).bind fun _ => .assume fun _ => ?_
  refine (Triple.demand fun _ h => h).bind fun plan => .assume fun _ => ?_
  refine (Triple.demand fun _ h => h).bind fun op => .assume fun _ => ?_
  refine (Triple.demand fun _ h => h).bind fun x => .assume fun _ => ?_
  refine (Triple.demand fun _ h => h).bind fun p => .assume fun _ => ?_
  have hkey : (EffectKey.append wf.activeTaskId op).OtherThanReport wf.activeTaskId := ⟨rfl, nofun⟩
  refine (journalRun_calm hkey ?_).bind fun record => ?_
  · refine persist_calm.bind fun persisted => ?_
    refine ((Triple.query fun _ h => h).weaken (fun _ h => h) (fun _ _ h => h.2) fun _ h => h).bind
      fun rows => ?_
    refine ((Triple.query fun _ h => h).weaken (fun _ h => h) (fun _ _ h => h.2) fun _ h => h).bind
      fun binding => ?_
    refine (Triple.refuseIf fun _ h => h).bind fun _ => .assume fun _ => ?_
    refine (Triple.demand fun _ h => h).bind fun row => .assume fun _ => ?_
    exact (Triple.ofExcept fun _ h => h).bind fun _ => .assume fun _ => .pure fun _ h => h
  · refine submissionReceipt_spec.bind fun receipt => ?_
    refine (Triple.demand fun _ h => h).bind fun _ => .assume fun _ => ?_
    refine projectBinding_calm.bind fun _ => ?_
    exact (Triple.demand fun _ h => h).bind fun _ => .assume fun _ => .pure fun _ h => h

/-- `append_operation` is calm. -/
theorem appendOperation_calm : CalmNode D .appendOperation := by
  refine calmNode_of_update (by decide) fun svc wf w₀ => ?_
  refine (Triple.demand fun _ h => h).bind fun d => .assume fun _ => ?_
  refine append_calm.bind fun receipt => ?_
  cases receipt.persistedPlan with
  | none =>
    refine .pure fun w hw => ⟨?_, hw⟩
    exact ⟨rfl, fun _ => rfl, fun _ _ => rfl, fun _ _ => rfl, id, .inl, trivial⟩
  | some stored =>
    refine .pure fun w hw => ⟨?_, hw⟩
    exact ⟨rfl, fun _ => rfl, fun _ _ => rfl, fun _ _ => rfl, fun _ => nofun, .inl, trivial⟩

/-- `finalize` and `cancel` are calm, as their keys are no report's. -/
theorem lifecycle_calm {kind : EffectKind} {key : EffectKey} {reason : Option String}
    (hkey : key.OtherThanReport wf.activeTaskId) :
    Triple (Calm wf.activeTaskId w₀) (lifecycle D svc wf kind key reason)
      (fun _ => Calm wf.activeTaskId w₀) (Calm wf.activeTaskId w₀) := by
  refine (Triple.demand fun _ h => h).bind fun x => .assume fun _ => ?_
  refine (journalRun_calm hkey ?_).bind fun record => ?_
  · refine ((Triple.query fun _ h => h).weaken (fun _ h => h) (fun _ _ h => h.2) fun _ h => h).bind
      fun binding => ?_
    exact (Triple.refuseIf fun _ h => h).bind fun _ => .assume fun _ => .pure fun _ h => h
  · split
    · exact projectBinding_calm
    · exact .raise fun _ h => h

/-- `finalize_execution` is calm. -/
theorem finalizeExecution_calm : CalmNode D .finalizeExecution := by
  refine calmNode_of_update (by decide) fun svc wf w₀ => ?_
  have hkey : (EffectKey.finalize wf.activeTaskId).OtherThanReport wf.activeTaskId := ⟨rfl, nofun⟩
  refine (lifecycle_calm hkey).bind fun _ => .pure fun w hw => ⟨?_, hw⟩
  exact ⟨rfl, fun _ => rfl, fun _ _ => rfl, fun _ _ => rfl, id, .inl, trivial⟩

/-- `cancel_execution` is calm. -/
theorem cancelExecution_calm : CalmNode D .cancelExecution := by
  refine calmNode_of_update (by decide) fun svc wf w₀ => ?_
  refine (Triple.demand fun _ h => h).bind fun external => .assume fun _ => ?_
  refine (Triple.demand fun _ h => h).bind fun signal => .assume fun _ => ?_
  have hkey : (EffectKey.cancel wf.activeTaskId).OtherThanReport wf.activeTaskId := ⟨rfl, nofun⟩
  refine (lifecycle_calm hkey).bind fun _ => .pure fun w hw => ⟨?_, hw⟩
  exact ⟨rfl, fun _ => rfl, fun _ _ => rfl, fun _ _ => rfl, id, .inl, trivial⟩

/-- `build_report_evidence` is calm. -/
theorem buildReportEvidence_calm : CalmNode D .buildReportEvidence := by
  refine calmNode_of_update (by decide) fun svc wf w₀ => ?_
  have hevidence : Triple (Calm wf.activeTaskId w₀) (reportEvidence svc wf)
      (fun evidence w => (∃ x, wf.executionId = some x ∧
        svc.result = .ok evidence.executorResult) ∧ Calm wf.activeTaskId w₀ w)
      (Calm wf.activeTaskId w₀) := by
    refine (Triple.demand fun _ h => h).bind fun x => .assume fun hx => ?_
    refine (Triple.ofExcept fun _ h => h).bind fun result => .assume fun hresult => ?_
    refine (Triple.ofExcept fun _ h => h).bind fun _ => .assume fun _ => ?_
    refine (Triple.demand fun _ h => h).bind fun _ => .assume fun _ => ?_
    exact .pure fun w hw => ⟨⟨x, hx, hresult⟩, hw⟩
  refine hevidence.bind fun evidence => .assume fun h => .pure fun w hw => ⟨?_, hw⟩
  obtain ⟨x, hx, hresult⟩ := h
  exact ⟨rfl, fun _ => rfl, fun _ _ => rfl, fun _ _ => rfl, id, .inl, x, evidence, hx, hresult, rfl⟩

/-- Every business node that neither reports nor ends its Task. -/
theorem calmNode (hn : n.isCalm = true) (hb : n.isBusiness = true) : CalmNode D n := by
  cases n with
  | beginTask | generateReport | commitAnswer | commitSuccess | commitRejected | commitBlocked
  | commitFailed | commitCancelled => exact absurd hn (by decide)
  | registerExecution | waitExternalSignal | recordEventReceipt => exact absurd hb (by decide)
  | hydrateTurn => exact hydrateTurn_calm
  | classifyIntent => exact classifyIntent_calm
  | clarifyRequest => exact clarifyRequest_calm
  | answerGeneral => exact answer_calm (.inl rfl)
  | answerDataQuestion => exact answer_calm (.inr rfl)
  | chooseExecutionMode => exact chooseExecutionMode_calm
  | reviewRequestRisk => exact reviewRequestRisk_calm
  | confirmRequestRisk => exact confirmRequestRisk_calm
  | searchWorkflows => exact searchWorkflows_calm
  | chooseWorkflow => exact chooseWorkflow_calm
  | loadSelectedWorkflow => exact loadSelectedWorkflow_calm
  | buildPlan => exact buildPlan_calm
  | compileAndPersistPlan => exact compileAndPersistPlan_calm
  | reviewCompiledCodeRisk => exact reviewCompiledCodeRisk_calm
  | reviewPlan => exact reviewPlan_calm
  | verifyApproval => exact verifyApproval_calm
  | submitExecution => exact submitExecution_calm
  | reconcileExecutor => exact reconcileExecutor_calm
  | adaptMultiPlan => exact adaptMultiPlan_calm
  | appendOperation => exact appendOperation_calm
  | finalizeExecution => exact finalizeExecution_calm
  | cancelExecution => exact cancelExecution_calm
  | buildReportEvidence => exact buildReportEvidence_calm

/-! ## Nodes of the session -/

variable {config : Config} {s : SessionState} {P I : World → Prop}
    {Q : WorkflowState → World → Prop}

/-- The receipt and the route of a node, after a body of which `Q` is known. -/
theorem superstep_of_body
    (hbody : Triple P (nodeBody D config svc n s)
      (fun updated w => (∃ wf', SameTask s updated wf wf' ∧ Q wf' w) ∧ I w) I) :
    Triple P (superstep D config svc n s)
      (fun r w =>
        (∃ wf', SameTask s r.1 wf wf' ∧ Q wf' w ∧ successor n r.1 = .ok r.2) ∧ I w) I := by
  have hrun : Triple P (runNode D config svc n s)
      (fun s' w => (∃ wf', SameTask s s' wf wf' ∧ Q wf' w) ∧ I w) I := by
    refine hbody.bind fun updated => ?_
    refine receipt_spec.weaken (fun _ h => h) (fun s' w h => ⟨?_, h.2.2⟩) fun _ h => h.2
    obtain ⟨hcore, ⟨wf', hst, hq⟩, -⟩ := h
    exact ⟨wf', hst.of_core hcore, hq⟩
  refine hrun.bind fun s' => ?_
  refine (Triple.ofExcept fun w hw => hw.2).bind fun next => .assume fun hnext =>
    .pure fun w hw => ?_
  obtain ⟨⟨wf', hst, hq⟩, hw⟩ := hw
  exact ⟨⟨wf', hst, hq, hnext⟩, hw⟩

/-- The same for a business node. -/
theorem superstep_of_business (hb : n.isBusiness = true) (hwf : s.workflow = some wf)
    (hPI : ∀ w, P w → I w) (hnode : Triple P (businessNode D svc n wf)
      (fun wf' w => (wf'.activeTaskId = wf.activeTaskId ∧ Q wf' w) ∧ I w) I) :
    Triple P (superstep D config svc n s)
      (fun r w =>
        (∃ wf', SameTask s r.1 wf wf' ∧ Q wf' w ∧ successor n r.1 = .ok r.2) ∧ I w) I := by
  refine superstep_of_body ?_
  rw [nodeBody_business hb]
  refine (Triple.demand hPI).bind fun wf₀ => .assume fun hwf₀ => ?_
  obtain rfl : wf = wf₀ := Option.some.inj (hwf.symm.trans hwf₀)
  refine hnode.bind fun wf' => .pure fun w hw => ?_
  exact ⟨⟨wf', ⟨hwf, rfl, rfl, rfl, rfl, hw.1.1⟩, hw.1.2⟩, hw.2⟩

/-- The session's own nodes commit nothing, and change no more of the workflow than the signal. -/
theorem sessionNode_body (hb : n.isBusiness = false) (hn : n ≠ .beginTask)
    (hwf : s.workflow = some wf) (hx : s.executionId = wf.executionId) :
    Triple I (nodeBody D config svc n s)
      (fun updated w => (∃ wf', SameTask s updated wf wf' ∧
        ∃ signal, wf' = { wf with externalSignal := signal }) ∧ I w) I := by
  cases n with
  | beginTask => exact absurd rfl hn
  | registerExecution =>
    refine (Triple.demand fun _ h => h).bind fun x => .assume fun _ => ?_
    refine (Triple.ofExcept fun _ h => h).bind fun _ => .assume fun _ => .pure fun w hw => ?_
    exact ⟨⟨wf, ⟨hwf, hwf, rfl, rfl, hx, rfl⟩, wf.externalSignal, rfl⟩, hw⟩
  | recordEventReceipt =>
    refine (Triple.demand fun _ h => h).bind fun action => .assume fun _ => .pure fun w hw => ?_
    exact ⟨⟨wf, ⟨hwf, hwf, rfl, rfl, hx, rfl⟩, wf.externalSignal, rfl⟩, hw⟩
  | waitExternalSignal =>
    refine (Triple.demand fun _ h => h).bind fun raw => .assume fun _ => ?_
    refine (Triple.demand fun _ h => h).bind fun wf₀ => .assume fun hwf₀ => ?_
    obtain rfl : wf = wf₀ := Option.some.inj (hwf.symm.trans hwf₀)
    cases raw with
    | cancelRequested signal =>
      refine (Triple.refuseIf fun _ h => h).bind fun _ => .assume fun _ => .pure fun w hw => ?_
      exact ⟨⟨_, ⟨hwf, rfl, rfl, rfl, hx, rfl⟩, _, rfl⟩, hw⟩
    | worker action =>
      refine (Triple.refuseIf fun _ h => h).bind fun _ => .assume fun _ => ?_
      refine (Triple.refuseIf fun _ h => h).bind fun _ => .assume fun _ => ?_
      refine (Triple.refuseIf fun _ h => h).bind fun _ => .assume fun _ => ?_
      refine (Triple.demand fun _ h => h).bind fun _ => .assume fun _ => .pure fun w hw => ?_
      exact ⟨⟨_, ⟨hwf, rfl, rfl, rfl, hx, rfl⟩, _, rfl⟩, hw⟩
    | _ => exact .raise fun _ h => h
  | _ => exact absurd hb (by decide)

/-- The contract of a calm node with its receipt and its edge. -/
theorem superstep_calm (hn : n.isCalm = true) (hwf : s.workflow = some wf)
    (hx : s.executionId = wf.executionId) :
    Triple (Calm wf.activeTaskId w₀) (superstep D config svc n s)
      (fun r w => (∃ wf', SameTask s r.1 wf wf' ∧
        (Update svc n wf wf' ∧ (n = .hydrateTurn → w.tasks.get wf.activeTaskId ≠ none)) ∧
        successor n r.1 = .ok r.2) ∧ Calm wf.activeTaskId w₀ w) (Calm wf.activeTaskId w₀) := by
  cases hb : n.isBusiness with
  | true =>
    refine superstep_of_business hb hwf (fun _ h => h) ?_
    exact (calmNode hn hb svc wf w₀).weaken (fun _ h => h)
      (fun wf' w h => ⟨⟨h.1.1.task, h.1⟩, h.2⟩) fun _ h => h
  | false =>
    have hne : n ≠ .beginTask := by
      rintro rfl
      exact absurd hn (by decide)
    refine superstep_of_body ?_
    refine (sessionNode_body hb hne hwf hx).weaken (fun _ h => h) (fun updated w h => ⟨?_, h.2⟩)
      fun _ h => h
    obtain ⟨wf', hst, signal, rfl⟩ := h.1
    refine ⟨_, hst, ⟨rfl, fun _ => rfl, fun _ _ => rfl, fun _ _ => rfl, id, .inl, ?_⟩, ?_⟩
    · cases n <;> trivial
    · rintro rfl
      exact absurd hb (by decide)

/-- The contract of `begin_task` with its receipt and its edge. -/
theorem superstep_begin : Triple I (superstep D config svc .beginTask s)
    (fun r w => ((∃ turn updated, Begins s turn updated ∧ SameCore updated r.1) ∧
      r.2 = some .hydrateTurn) ∧ I w) I := by
  have hrun : Triple I (runNode D config svc .beginTask s)
      (fun s' w => (∃ turn updated, Begins s turn updated ∧ SameCore updated s') ∧ I w) I := by
    refine beginTask_spec.bind fun updated => ?_
    refine receipt_spec.weaken (fun _ h => h) (fun s' w h => ⟨?_, h.2.2⟩) fun _ h => h.2
    obtain ⟨hcore, ⟨turn, hbegins⟩, -⟩ := h
    exact ⟨turn, updated, hbegins, hcore⟩
  refine hrun.bind fun s' => ?_
  refine (Triple.ofExcept fun _ h => h.2).bind fun next => .assume fun hnext => .pure fun w hw => ?_
  exact ⟨⟨hw.1, (Except.ok.inj hnext).symm⟩, hw.2⟩

end

/-! ## Edges -/

/-- The nodes that can follow a node. -/
def Node.successors : Node → List Node
  | .classifyIntent =>
    [.clarifyRequest, .answerGeneral, .answerDataQuestion, .reviewRequestRisk, .chooseExecutionMode]
  | .reviewRequestRisk | .confirmRequestRisk =>
    [.commitBlocked, .confirmRequestRisk, .searchWorkflows, .buildPlan]
  | .searchWorkflows => [.buildPlan, .chooseWorkflow]
  | .chooseWorkflow => [.loadSelectedWorkflow, .buildPlan]
  | .reviewCompiledCodeRisk => [.commitBlocked, .reviewPlan, .verifyApproval]
  | .reviewPlan => [.buildPlan, .commitRejected, .verifyApproval]
  | .verifyApproval => [.appendOperation, .submitExecution]
  | .waitExternalSignal => [.cancelExecution, .reconcileExecutor]
  | .recordEventReceipt =>
    [.waitExternalSignal, .buildReportEvidence, .commitCancelled, .adaptMultiPlan, .commitFailed]
  | .adaptMultiPlan => [.appendOperation, .compileAndPersistPlan, .finalizeExecution, .commitFailed]
  | n => (edgeOf n).toList

section

variable {wf : WorkflowState} {n m : Node} {s : SessionState}

/-- What a route chooses is a successor of its node. -/
theorem mem_successors_of_route {route : WorkflowState → Except Raised Node}
    (hroute : routeOf n = some route) (h : route wf = .ok m) : m ∈ n.successors := by
  cases n <;> simp only [routeOf, Option.some.injEq, reduceCtorEq] at hroute <;> subst hroute
  case classifyIntent =>
    rcases routeIntent_cases h with rfl | rfl | rfl | rfl | rfl <;> decide
  case reviewRequestRisk | confirmRequestRisk =>
    obtain ⟨review, -, ⟨-, rfl⟩ | ⟨-, -, rfl⟩ | ⟨-, -, rfl | rfl⟩⟩ :=
      routeRequestRisk_cases h <;> decide
  case searchWorkflows | chooseWorkflow | verifyApproval =>
    have h := Except.ok.inj h
    split at h <;> subst h <;> decide
  case reviewCompiledCodeRisk =>
    obtain ⟨review, -, ⟨-, rfl⟩ | ⟨-, rfl | ⟨-, -, rfl⟩⟩⟩ := routeCodeRisk_cases h <;> decide
  case reviewPlan =>
    unfold routePlanReview routeKey at h
    cases ha : wf.reviewAction with
    | none => simp [ha, bind, Except.bind] at h
    | some action =>
      simp only [ha, bind, Except.bind, pure, Except.pure] at h
      split_ifs at h <;> obtain rfl := Except.ok.inj h <;> decide
  case waitExternalSignal =>
    unfold routeExternalSignal routeKey at h
    cases hsignal : wf.externalSignal with
    | none => simp [hsignal, bind, Except.bind] at h
    | some signal =>
      simp only [hsignal, bind, Except.bind, pure, Except.pure] at h
      split_ifs at h <;> obtain rfl := Except.ok.inj h <;> decide
  case recordEventReceipt =>
    cases hrec : wf.executorReconciliation with
    | none => simp [routeReconciliation, routeKey, hrec, bind, Except.bind] at h
    | some rec =>
      rcases routeReconciliation_cases hrec h with
        ⟨-, rfl⟩ | ⟨-, rfl⟩ | ⟨-, rfl⟩ | ⟨-, rfl⟩ | ⟨rfl, -⟩ <;>
        decide
  case adaptMultiPlan =>
    unfold routeMultiAction routeKey at h
    cases ha : wf.multiAction with
    | none => simp [ha, bind, Except.bind] at h
    | some action =>
      simp only [ha, bind, Except.bind, pure, Except.pure] at h
      cases action <;> obtain rfl := Except.ok.inj h <;> decide

/-- Where a node leads is one of its successors. -/
theorem mem_successors (h : successor n s = .ok (some m)) : m ∈ n.successors := by
  cases hroute : routeOf n with
  | none =>
    have hedge := edge_of_successor hroute h
    have hsucc : n.successors = (edgeOf n).toList := by
      cases n <;> first | rfl | exact absurd hroute (by simp [routeOf])
    simp [hsucc, hedge]
  | some route =>
    unfold successor at h
    rw [hroute] at h
    cases hwf : s.workflow with
    | none =>
      rw [hwf] at h
      exact absurd h (by simp)
    | some wf =>
      rw [hwf] at h
      cases hr : route wf with
      | error e => simp [hr, Except.map] at h
      | ok m' =>
        obtain rfl : m' = m := by simpa [hr, Except.map] using h
        exact mem_successors_of_route hroute hr

end

end ExAgent.Graph
