import ExAgent.Graph.Idle

/-!
# The graph after a cancellation

`cancel_execution` leaves the phase `CANCEL_REQUESTED` and goes back to the wait. From there the
graph stays among few nodes (`Node.awaits`) until one of them closes the Task, a report or a plan
begins, or an approval is verified (`Node.advances`). None of the nodes that await writes a status
to the Task, but for the one that closes it, and none of them changes the phase otherwise.
-/

namespace ExAgent.Graph

open Lib Prog

/-- The nodes behind a wait of a Task that has been cancelled. -/
def Node.awaits : Node → Bool
  | .waitExternalSignal | .cancelExecution | .reconcileExecutor | .recordEventReceipt
  | .adaptMultiPlan | .appendOperation | .finalizeExecution | .compileAndPersistPlan
  | .reviewCompiledCodeRisk | .reviewPlan | .commitRejected | .commitBlocked | .commitFailed
  | .commitCancelled => true
  | _ => false

/-- The nodes that take a Task on: a successful result is reported, a plan is built anew or
approved. -/
def Node.advances : Node → Bool
  | .buildReportEvidence | .buildPlan | .verifyApproval => true
  | _ => false

/-- The status of a Task that shows its cancellation, or its end. -/
def Shows (taskId : Uuid) (w : World) : Prop :=
  ∀ task, w.tasks.get taskId = some task →
    task.status.isTerminal = true ∨ task.status = .cancelRequested

/-- A Task that has been closed. -/
def Closed (taskId : Uuid) (w : World) : Prop :=
  ∃ task, w.tasks.get taskId = some task ∧ task.status.isTerminal = true

/-- A closed Task shows its end. -/
theorem Closed.shows {taskId : Uuid} {w : World} (h : Closed taskId w) : Shows taskId w := by
  obtain ⟨closed, hclosed, hend⟩ := h
  intro task htask
  obtain rfl := Option.some.inj (hclosed.symm.trans htask)
  exact .inl hend

section

variable {D : Deployment} {config : Config} {svc : Services} {n : Node} {s s' : SessionState}
  {wf wf' : WorkflowState} {taskId : Uuid} {w w' : World}

/-- Only the status counts. -/
theorem Shows.of_map (h : Shows taskId w) (heq : (w'.tasks.get taskId).map TaskRow.status =
    (w.tasks.get taskId).map TaskRow.status) : Shows taskId w' := by
  intro task htask
  rw [htask] at heq
  obtain ⟨old, hold, hstatus⟩ := Option.map_eq_some_iff.mp heq.symm
  rw [← hstatus]
  exact h old hold

/-- What a Task shows depends on its row only. -/
theorem Shows.of_tasks (h : Shows taskId w) (heq : w'.tasks.get taskId = w.tasks.get taskId) :
    Shows taskId w' :=
  h.of_map (by rw [heq])

/-- Whether a Task is closed depends on its row only. -/
theorem Closed.of_tasks (h : Closed taskId w) (heq : w'.tasks.get taskId = w.tasks.get taskId) :
    Closed taskId w' := by
  obtain ⟨task, htask, hend⟩ := h
  exact ⟨task, heq.trans htask, hend⟩

/-! ## Services -/

/-- A transaction that leaves the Tasks alone. -/
theorem transact_shows {α : Type} {f : World → Except Raised (α × World)}
    (hf : ∀ w a w', f w = .ok (a, w') → w'.tasks = w.tasks) :
    Steady (Shows taskId) (.transact f : Run α) :=
  .transact fun w hw a w' h => hw.of_tasks (by rw [hf w a w' h])

/-- The end of a Task. -/
theorem terminal_closed {P : World → Prop} {status : TaskStatus} {message : String}
    {metadata : Option TerminalMetadata} :
    Triple P (terminal taskId status message metadata) (fun _ => Closed taskId)
      fun w => P w ∨ Closed taskId w := by
  refine .transact (fun w hw a w' h => ?_) fun _ hw => .inl hw
  suffices hclosed : Closed taskId w' from ⟨.inr hclosed, hclosed⟩
  split_ifs at h with hterminal
  split at h
  · exact absurd h (by simp)
  · rename_i task htask
    split_ifs at h with hended
    · obtain ⟨-, rfl⟩ := Prod.mk.inj (Except.ok.inj h)
      exact ⟨task, htask, hended⟩
    · obtain ⟨-, rfl⟩ := Prod.mk.inj (Except.ok.inj h)
      refine ⟨_, (Table.get_modifyAt _ _ _ _).trans ((if_pos rfl).trans (by rw [htask]; rfl)), ?_⟩
      simpa using hterminal

/-- `terminal` keeps what the Task shows. -/
theorem terminal_shows {status : TaskStatus} {message : String}
    {metadata : Option TerminalMetadata} :
    Steady (Shows taskId) (terminal taskId status message metadata) :=
  terminal_closed.weaken (fun _ h => h) (fun _ _ h => h.shows) fun _ h => h.elim id Closed.shows

/-- `persist` keeps what the Task shows. -/
theorem persist_shows {plan : PlanDraft} : Steady (Shows taskId) (persist D svc wf plan) := by
  refine ((Steady.demand _ _).bind fun _ => .refuseIf _ _).bind fun _ =>
    (Steady.ofExcept _).bind fun _ => (Steady.ofExcept _).bind fun _ => ?_
  refine transact_shows fun w a w' h => ?_
  split at h
  · exact absurd h (by simp)
  · split at h
    · exact absurd h (by simp)
    · exact (Prod.mk.inj (Except.ok.inj h)).2 ▸ rfl
    · split at h
      · exact absurd h (by simp)
      · dsimp only at h
        split at h
        · exact absurd h (by simp)
        · obtain ⟨-, rfl⟩ := Prod.mk.inj (Except.ok.inj h)
          rfl

/-- A request to the Executor keeps what the Task shows. -/
theorem send_shows (request : ExecutorRequest) :
    Steady (Shows taskId) (send svc wf.activeTaskId request) := by
  have hpost : Steady (Shows taskId) (post wf.activeTaskId request) := by
    refine transact_shows fun w a w' h => ?_
    obtain ⟨-, rfl⟩ := Prod.mk.inj (Except.ok.inj h)
    rfl
  refine (Steady.ofExcept _).bind fun _ => hpost.bind fun _ => ?_
  split
  · exact (Steady.ofExcept _).bind fun _ => .pure _
  · exact (Steady.ofExcept _).bind fun _ => (Steady.refuseIf _ _).bind fun _ =>
      (Steady.refuseIf _ _).bind fun _ => .pure _

/-- The answer of an effect keeps what the Task shows. -/
theorem completeEffect_shows {key : EffectKey} {response : EffectResponse} :
    Steady (Shows taskId) (completeEffect D key response) := by
  refine transact_shows fun w a w' h => ?_
  split at h
  · exact absurd h (by simp)
  · split at h
    · split at h
      · exact absurd h (by simp)
      · split at h
        · exact absurd h (by simp)
        · exact (Prod.mk.inj (Except.ok.inj h)).2 ▸ rfl
    · dsimp only at h
      split at h
      · exact absurd h (by simp)
      · obtain ⟨-, rfl⟩ := Prod.mk.inj (Except.ok.inj h)
        rfl

/-- An effect keeps what the Task shows when the making of its request does. -/
theorem journalRun_shows {key : EffectKey} {kind : EffectKind} {inputs : EffectInputs}
    {prepare : Run ExecutorRequest} (hprepare : Steady (Shows taskId) prepare) :
    Steady (Shows taskId)
      (journalRun D wf.activeTaskId key kind inputs prepare (send svc wf.activeTaskId)) := by
  have hinsert : ∀ request, Steady (Shows taskId)
      (prepareEffect D key wf.activeTaskId kind (D.inputDigest inputs) request) := by
    intro request
    refine transact_shows fun w a w' h => ?_
    dsimp only at h
    split at h
    · exact absurd h (by simp)
    · split at h
      · exact absurd h (by simp)
      · split_ifs at h
        obtain ⟨-, rfl⟩ := Prod.mk.inj (Except.ok.inj h)
        rfl
  refine (Steady.query _).bind fun found => Steady.bind ?_ fun record =>
    (Steady.refuseIf _ _).bind fun _ => ?_
  · cases found with
    | some record => exact .pure _
    | none => exact hprepare.bind hinsert
  · unfold completedRecord
    split
    · exact .pure _
    · exact (send_shows _).bind fun _ => completeEffect_shows

/-- A binding gives the Task its execution, and not a status. -/
theorem projectBinding_shows {x : Uuid} {version : ℕ} {operationId : Option Uuid} {next : Option ℕ}
    {create : Bool} :
    Steady (Shows taskId) (projectBinding wf.activeTaskId x version operationId next create) := by
  refine projectBinding_cases (fun _ h => h) (fun w b b' hw _ _ _ => ⟨hw, hw⟩)
    fun w b task _ hw _ _ _ _ => ?_
  suffices hs : Shows taskId (w.withBinding wf.activeTaskId b) from ⟨hs, hs⟩
  exact hw.of_map (map_modifyAt w.tasks wf.activeTaskId
    (f := fun t => { t with executionId := some b.executionId }) (fun _ _ => rfl) taskId)

/-- The update of a binding keeps what the Task shows. -/
theorem updateBinding_shows {version sequence : ℕ} :
    Steady (Shows taskId) (updateBinding wf.activeTaskId version sequence) := by
  refine transact_shows fun w a w' h => ?_
  split at h
  · exact absurd h (by simp)
  · obtain ⟨-, rfl⟩ := Prod.mk.inj (Except.ok.inj h)
    rfl

/-- `finalize` and `cancel` keep what the Task shows. -/
theorem lifecycle_shows {kind : EffectKind} {key : EffectKey} {reason : Option String} :
    Steady (Shows taskId) (lifecycle D svc wf kind key reason) := by
  refine (Steady.demand _ _).bind fun _ => (journalRun_shows ?_).bind fun _ => ?_
  · exact (Steady.query _).bind fun _ => (Steady.refuseIf _ _).bind fun _ => .pure _
  · split
    · exact projectBinding_shows
    · exact .raise _

/-- `append` keeps what the Task shows. -/
theorem append_shows {decision : MultiDecision} :
    Steady (Shows taskId) (append D svc wf decision) := by
  refine (Steady.demand _ _).bind fun _ => (Steady.refuseIf _ _).bind fun _ => ?_
  refine (Steady.demand _ _).bind fun _ => (Steady.demand _ _).bind fun operationId => ?_
  refine (Steady.demand _ _).bind fun _ => (Steady.demand _ _).bind fun _ => ?_
  refine (journalRun_shows ?_).bind fun record => ?_
  · refine persist_shows.bind fun _ => (Steady.query _).bind fun _ => ?_
    exact (Steady.query _).bind fun _ => (Steady.refuseIf _ _).bind fun _ =>
      (Steady.demand _ _).bind fun _ => (Steady.ofExcept _).bind fun _ => .pure _
  · have hreceipt : Steady (Shows taskId) (submissionReceipt record) := by
      unfold submissionReceipt
      split
      · exact .pure _
      · exact .raise _
    exact hreceipt.bind fun _ => (Steady.demand _ _).bind fun _ =>
      projectBinding_shows.bind fun _ => (Steady.demand _ _).bind fun _ => .pure _

/-- Reconciling keeps what the Task shows. -/
theorem reconcile_shows {signal : ExecutorBoundarySignal} :
    Steady (Shows taskId) (reconcile svc wf signal) := by
  refine (Steady.ofExcept _).bind fun _ => (Steady.ofExcept _).bind fun _ => ?_
  have hend : ∀ (result : ExecutionResult) (x : ExecutorReconciliation), Steady (Shows taskId)
      (do
        updateBinding wf.activeTaskId result.version signal.eventSequence
        pure x) := fun _ _ => updateBinding_shows.bind fun _ => .pure _
  dsimp only
  split
  · refine (Steady.refuseIf _ _).bind fun _ => (Steady.query _).bind fun _ => ?_
    refine (Steady.demand _ _).bind fun _ => (Steady.demand _ _).bind fun _ => ?_
    exact (Steady.refuseIf _ _).bind fun _ => (Steady.ofExcept _).bind fun _ => hend _ _
  · exact hend _ _

/-- Deciding keeps what the Task shows. -/
theorem adapt_shows {reconciliation : ExecutorReconciliation} :
    Steady (Shows taskId) (adapt D svc wf reconciliation) := by
  unfold adapt
  split
  · exact .pure _
  · refine (Steady.demand _ _).bind fun _ => (Steady.demand _ _).bind fun _ => ?_
    refine (Steady.ofExcept _).bind fun decision => ?_
    split
    · exact .pure _
    · exact (Steady.ofExcept _).bind fun _ => .pure _

/-- Reading a signal keeps what the Task shows. -/
theorem resumeSignal_shows : Steady (Shows taskId) (resumeSignal svc) := by
  refine (Steady.demand _ _).bind fun raw => ?_
  cases raw <;> first | exact .raise _ | exact .pure _

/-! ## Nodes -/

/-- Behind a wait no node takes the cancellation off its Task. -/
theorem businessNode_shows (hn : n.awaits = true) :
    Steady (Shows wf.activeTaskId) (businessNode D svc n wf) := by
  cases n with
  | cancelExecution =>
    exact (Steady.demand _ _).bind fun _ => (Steady.demand _ _).bind fun _ =>
      lifecycle_shows.bind fun _ => .pure _
  | reconcileExecutor =>
    exact (Steady.demand _ _).bind fun _ => (Steady.demand _ _).bind fun _ =>
      reconcile_shows.bind fun _ => .pure _
  | adaptMultiPlan =>
    refine (Steady.demand _ _).bind fun _ => adapt_shows.bind fun decision => ?_
    dsimp only
    split
    · exact .pure _
    · exact (Steady.demand _ _).bind fun _ => .pure _
  | appendOperation =>
    refine (Steady.demand _ _).bind fun _ => append_shows.bind fun receipt => ?_
    dsimp only
    split <;> exact .pure _
  | finalizeExecution => exact lifecycle_shows.bind fun _ => .pure _
  | compileAndPersistPlan =>
    exact (Steady.demand _ _).bind fun _ => persist_shows.bind fun _ => .pure _
  | reviewCompiledCodeRisk =>
    exact ((Steady.demand _ _).bind fun _ => .ofExcept _).bind fun _ => .pure _
  | reviewPlan =>
    refine (Steady.demand _ _).bind fun _ => (Steady.demand _ _).bind fun _ => ?_
    refine (Steady.demand _ _).bind fun _ => resumeSignal_shows.bind fun _ => ?_
    refine (Steady.demand _ _).bind fun _ => (Steady.refuseIf _ _).bind fun _ => ?_
    exact (Steady.refuseIf _ _).bind fun _ => (Steady.refuseIf _ _).bind fun _ =>
      (Steady.refuseIf _ _).bind fun _ => .pure _
  | commitRejected | commitCancelled => exact terminal_shows.bind fun _ => .pure _
  | commitBlocked | commitFailed =>
    exact (Steady.demand _ _).bind fun _ => terminal_shows.bind fun _ => .pure _
  | waitExternalSignal | recordEventReceipt => exact .pure _
  | _ => exact absurd hn (by decide)

/-- What a node behind a wait leaves: its Task closed, or in the phase it was in. A cancellation
sets the phase. -/
structure Awaited (n : Node) (wf wf' : WorkflowState) (w : World) : Prop where
  closed : n.closes = true → Closed wf.activeTaskId w
  phase : n.closes = false → wf'.phase = wf.phase ∨ n = .cancelExecution
  cancelled : n = .cancelExecution → wf'.phase = .cancelRequested

/-- A node that does not change the phase. -/
theorem Awaited.same (hopen : n.closes = false) (hn : n ≠ .cancelExecution)
    (hphase : wf'.phase = wf.phase) : Awaited n wf wf' w where
  closed h := absurd (h.symm.trans hopen) (by decide)
  phase _ := .inl hphase
  cancelled h := absurd h hn

/-- The node that commits an end is awaited with its Task closed. -/
theorem commitWith_awaited {status : TaskStatus} {message : String} (hn : n.closes = true)
    (hne : n ≠ .cancelExecution) :
    Triple (fun _ => True) (commitWith wf status message) (fun wf' w => Awaited n wf wf' w)
      fun _ => True := by
  refine Triple.bind (terminal_closed.weaken (fun _ h => h) (fun _ _ h => h) fun _ _ => trivial)
    fun _ => .pure fun w hw => ⟨fun _ => hw, fun h => ?_, fun h => absurd h hne⟩
  exact absurd (h.symm.trans hn) (by decide)

/-- A node that waits for an answer leaves its Task awaited. -/
theorem businessNode_awaited (hn : n.awaits = true) (hb : n.isBusiness = true) :
    Triple (fun _ => True) (businessNode D svc n wf) (fun wf' w => Awaited n wf wf' w)
      fun _ => True := by
  cases n with
  | cancelExecution =>
    refine (Triple.demand fun _ h => h).bind fun _ => .assume fun _ => ?_
    refine (Triple.demand fun _ h => h).bind fun _ => .assume fun _ => ?_
    exact (Triple.trivial _).bind fun _ => .pure fun _ _ => ⟨nofun, fun _ => .inr rfl, fun _ => rfl⟩
  | reconcileExecutor =>
    refine (Triple.demand fun _ h => h).bind fun _ => .assume fun _ => ?_
    refine (Triple.demand fun _ h => h).bind fun _ => .assume fun _ => ?_
    exact (Triple.trivial _).bind fun _ => .pure fun _ _ => .same rfl (by decide) rfl
  | adaptMultiPlan =>
    refine (Triple.demand fun _ h => h).bind fun _ => .assume fun _ => ?_
    refine (Triple.trivial _).bind fun decision => ?_
    dsimp only
    split
    · exact .pure fun _ _ => .same rfl (by decide) (by split <;> rfl)
    · refine (Triple.demand fun _ h => h).bind fun _ => .assume fun _ => ?_
      exact .pure fun _ _ => .same rfl (by decide) (by split <;> rfl)
  | appendOperation =>
    refine (Triple.demand fun _ h => h).bind fun _ => .assume fun _ => ?_
    refine (Triple.trivial _).bind fun receipt => ?_
    dsimp only
    split <;> exact .pure fun _ _ => .same rfl (by decide) rfl
  | finalizeExecution =>
    exact (Triple.trivial _).bind fun _ => .pure fun _ _ => .same rfl (by decide) rfl
  | compileAndPersistPlan =>
    refine (Triple.demand fun _ h => h).bind fun _ => .assume fun _ => ?_
    exact (Triple.trivial _).bind fun _ => .pure fun _ _ => .same rfl (by decide) rfl
  | reviewCompiledCodeRisk =>
    exact (Triple.trivial _).bind fun _ => .pure fun _ _ => .same rfl (by decide) rfl
  | reviewPlan =>
    refine (Triple.demand fun _ h => h).bind fun _ => .assume fun _ => ?_
    refine (Triple.demand fun _ h => h).bind fun _ => .assume fun _ => ?_
    refine (Triple.demand fun _ h => h).bind fun _ => .assume fun _ => ?_
    refine (Triple.trivial _).bind fun _ => ?_
    refine (Triple.demand fun _ h => h).bind fun _ => .assume fun _ => ?_
    refine (Triple.refuseIf fun _ h => h).bind fun _ => .assume fun _ => ?_
    refine (Triple.refuseIf fun _ h => h).bind fun _ => .assume fun _ => ?_
    refine (Triple.refuseIf fun _ h => h).bind fun _ => .assume fun _ => ?_
    exact (Triple.refuseIf fun _ h => h).bind fun _ => .assume fun _ =>
      .pure fun _ _ => .same rfl (by decide) rfl
  -- A node that commits the Task's end unlocks its session.
  | commitRejected | commitCancelled => exact commitWith_awaited rfl (by decide)
  | commitBlocked | commitFailed =>
    exact (Triple.demand fun _ h => h).bind fun _ => .assume fun _ =>
      commitWith_awaited rfl (by decide)
  | waitExternalSignal | recordEventReceipt => exact absurd hb (by decide)
  | _ => exact absurd hn (by decide)

/-! ## Steps of the graph -/

/-- Behind a wait no node takes the cancellation off its Task, wherever it stops. -/
theorem superstep_shows (hn : n.awaits = true)
    (hwf : ∀ wf, s.workflow = some wf → wf.activeTaskId = taskId) :
    Steady (Shows taskId) (superstep D config svc n s) := by
  have hbody : Steady (Shows taskId) (nodeBody D config svc n s) := by
    cases hb : n.isBusiness with
    | false => exact sessionNode_silent hb
    | true =>
      rw [nodeBody_business hb]
      refine (Triple.demand fun _ h => h).bind fun wf => .assume fun hs => ?_
      obtain rfl := hwf wf hs
      exact (businessNode_shows hn).bind fun wf' => .pure _
  have hrun : Steady (Shows taskId) (runNode D config svc n s) :=
    Triple.bind hbody fun updated => receipt_spec.weaken (fun _ h => h) (fun _ _ h => h.2)
      fun _ h => h
  exact hrun.bind fun s' => (Steady.ofExcept _).bind fun next => .pure _

/-- What a node behind a wait leaves in the session. -/
theorem superstep_awaited {next : Option Node} (hn : n.awaits = true) (hwf : s.workflow = some wf)
    (h : (superstep D config svc n s w).result = .ok (s', next)) :
    ∃ wf', s'.workflow = some wf' ∧ Awaited n wf wf' (superstep D config svc n s w).final := by
  have hbody : Triple (fun _ => True) (nodeBody D config svc n s)
      (fun s' w => ∃ wf', s'.workflow = some wf' ∧ Awaited n wf wf' w) fun _ => True := by
    cases hb : n.isBusiness with
    | true =>
      rw [nodeBody_business hb]
      refine (Triple.demand fun _ h => h).bind fun wf₀ => .assume fun hs => ?_
      obtain rfl := Option.some.inj (hwf.symm.trans hs)
      exact (businessNode_awaited hn hb).bind fun wf' => .pure fun _ ha => ⟨wf', rfl, ha⟩
    | false =>
      -- A signal is only put into the state.
      have hsignal : ∀ (x : ExternalSignal) (s' : SessionState) (w : World),
          s'.workflow = some { wf with externalSignal := some x } →
          ∃ wf', s'.workflow = some wf' ∧ Awaited .waitExternalSignal wf wf' w :=
        fun x s' w hs' => ⟨_, hs', .same rfl (by decide) rfl⟩
      cases n with
      | recordEventReceipt =>
        exact (Triple.demand fun _ h => h).bind fun _ => .assume fun _ =>
          .pure fun w _ => ⟨wf, hwf, .same rfl (by decide) rfl⟩
      | waitExternalSignal =>
        refine (Triple.demand fun _ h => h).bind fun raw => .assume fun _ => ?_
        refine (Triple.demand fun _ h => h).bind fun wf₀ => .assume fun hs => ?_
        obtain rfl := Option.some.inj (hwf.symm.trans hs)
        cases raw with
        | cancelRequested signal =>
          exact (Triple.refuseIf fun _ h => h).bind fun _ => .assume fun _ =>
            .pure fun w _ => hsignal _ _ w rfl
        | worker action =>
          refine (Triple.refuseIf fun _ h => h).bind fun _ => .assume fun _ => ?_
          refine (Triple.refuseIf fun _ h => h).bind fun _ => .assume fun _ => ?_
          refine (Triple.refuseIf fun _ h => h).bind fun _ => .assume fun _ => ?_
          exact (Triple.demand fun _ h => h).bind fun _ => .assume fun _ =>
            .pure fun w _ => hsignal _ _ w rfl
        | _ => exact .raise fun _ h => h
      | _ => first | exact absurd hn (by decide) | exact absurd hb (by decide)
  -- The receipt leaves the workflow of the state alone.
  have hrun : Triple (fun _ => True) (runNode D config svc n s)
      (fun s' w => ∃ wf', s'.workflow = some wf' ∧ Awaited n wf wf' w) fun _ => True := by
    refine hbody.bind fun updated => ?_
    refine (receipt_spec (I := fun w => ∃ wf', updated.workflow = some wf' ∧
      Awaited n wf wf' w)).weaken (fun _ h => h) (fun s' w hs => ?_) fun _ _ => trivial
    obtain ⟨hcore, wf', hwf', ha⟩ := hs
    exact ⟨wf', hcore.workflow.trans hwf', ha⟩
  have hspec : Triple (fun _ => True) (superstep D config svc n s)
      (fun r w => ∃ wf', r.1.workflow = some wf' ∧ Awaited n wf wf' w) fun _ => True :=
    hrun.bind fun s' => (Triple.ofExcept fun _ _ => trivial).bind fun next => .assume fun _ =>
      .pure fun _ h => h
  exact hspec.returns w trivial _ h

/-- Nothing follows a node that closes its Task. -/
theorem end_of_closes {next : Option Node} (hn : n.closes = true)
    (h : successor n s = .ok next) : next = none := by
  have hedge : routeOf n = none ∧ edgeOf n = none := by
    cases n <;> first | exact ⟨rfl, rfl⟩ | exact absurd hn (by decide)
  unfold successor at h
  rw [hedge.1] at h
  exact (Except.ok.inj h).symm.trans hedge.2

/-- Where a node behind a wait leads. -/
theorem successor_awaits {m : Node} (hn : n.awaits = true)
    (h : successor n s = .ok (some m)) : m.awaits = true ∨ m.advances = true := by
  unfold successor at h
  cases hroute : routeOf n with
  | none =>
    rw [hroute] at h
    have hedge : edgeOf n = some m := Except.ok.inj h
    cases n <;> simp only [edgeOf, Option.some.injEq, reduceCtorEq] at hedge <;> subst hedge <;>
      simp [Node.awaits] at hn ⊢
  | some route =>
    rw [hroute] at h
    cases hwf : s.workflow with
    | none => simp [hwf] at h
    | some wf =>
      simp only [hwf] at h
      cases hm : route wf with
      | error e => simp [hm, Except.map] at h
      | ok m' =>
        obtain rfl : m' = m := by simpa [hm, Except.map] using h
        cases n <;> simp only [routeOf, Option.some.injEq, reduceCtorEq] at hroute <;>
          subst hroute <;>
          simp only [routeIntent, routeRequestRisk, routeWorkflowSearch, routeWorkflowDecision,
            routeCodeRisk, routePlanReview, routeApprovedExecution, routeExternalSignal,
            routeReconciliation, routeMultiAction, routeKey, bind, Except.bind, pure,
            Except.pure] at hm <;>
          (repeat' split at hm) <;>
          first
          | (obtain rfl := Except.ok.inj hm
             simp [Node.awaits, Node.advances] at hn ⊢)
          | cases hm

end

end ExAgent.Graph
