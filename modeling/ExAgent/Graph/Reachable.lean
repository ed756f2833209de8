import ExAgent.Graph.Execution

/-!
# The invariant in every run

The reporting and the terminal nodes, `begin_task`, and from all nodes together the invariant of
every state that a run of the session graph reaches.
-/

namespace ExAgent.Graph

open Lib Prog

section

variable {D : Deployment} {rs : List NodeRun} {config : Config} {svc : Services} {w w' : World}
    {s s' : SessionState}
  {wf wf' : WorkflowState} {n m : Node} {next : Option Node} {I : World → Prop}

/-! ## Reports -/

/-- A reporting node between the end of an execution and its commit. -/
theorem reporting_keeps (hn : n.isBusiness = true) (hroute : routeOf n = none)
    (hne : n ≠ .reconcileExecutor ∧ n ≠ .submitExecution)
    (hpend : ∀ wf payload, ¬Pending wf payload n)
    (hstage : ∀ w wf, Stage D w wf n → Closing D (nodeRuns w.log) wf)
    (hstage' : ∀ w wf m, edgeOf n = some m → Closing D (nodeRuns w.log) wf → Stage D w wf m)
    (hnode : ∀ (rs : List NodeRun) (svc : Services) (s : SessionState) (wf : WorkflowState),
      Triple (fun w => Inv D rs w s (some n)) (businessNode D svc n wf)
        (fun wf' w => LateStep wf wf' ∧ Inv D rs w s (some n)) fun w => Inv D rs w s (some n)) :
    Keeps D n := by
  refine keeps_of_business (fun _ wf wf' _ => LateStep wf wf') hn
    (fun rs svc s wf _ => hnode rs svc s wf)
    (fun _ _ _ _ h => h.task) ?_
  intro svc w s s' wf wf' m _ hlate hst ht hnext
  refine ht.carry (hpend wf) hne.2 hlate.task hlate.persisted hlate.executionId ?_
  exact hstage' _ _ m (edge_of_successor hroute hnext)
    ((hstage w wf ht.stage).ran hst hne.1 hlate.executionId)

/-- `build_report_evidence` keeps the invariant: it reads the result the Task was closed with. -/
theorem buildReportEvidence_keeps : Keeps D .buildReportEvidence := by
  refine reporting_keeps rfl rfl (by decide) (fun _ _ h => h) (fun _ _ h => h) ?_
    fun rs svc s wf => ?_
  · rintro w wf m ⟨⟩ h
    exact h
  · have hevidence : Triple (fun w => Inv D rs w s (some .buildReportEvidence))
      (reportEvidence svc wf)
        (fun _ w => Inv D rs w s (some .buildReportEvidence))
        fun w => Inv D rs w s (some .buildReportEvidence) := by
      refine (Triple.demand fun _ h => h).bind fun _ => .assume fun _ => ?_
      refine (Triple.ofExcept fun _ h => h).bind fun _ => .assume fun _ => ?_
      refine (Triple.ofExcept fun _ h => h).bind fun _ => .assume fun _ => ?_
      exact (Triple.demand fun _ h => h).bind fun _ => .assume fun _ => .pure fun _ h => h
    exact hevidence.bind fun _ => .pure fun w hw => ⟨⟨rfl, rfl, rfl, rfl, rfl⟩, hw⟩

/-- A report is published wherever the invariant holds, and keeps it. -/
theorem report_spec {evidence : ReportEvidence} :
    Triple (fun w => Inv D rs w s next) (report D svc wf evidence) (fun _ w => Inv D rs w s next)
      fun w => Inv D rs w s next := by
  refine (Triple.demand fun _ h => h).bind fun x => .assume fun _ => ?_
  refine (Triple.refuseIf fun _ h => h).bind fun _ => .assume fun _ => ?_
  refine (journalRun_plain rfl ?_).bind fun record => ?_
  · exact (Triple.ofExcept fun _ h => h).bind fun _ => .assume fun _ => .pure fun w hw => ⟨rfl, hw⟩
  · refine (Triple.demand fun _ h => h).bind fun _ => .assume fun _ => ?_
    split
    · exact .pure fun _ h => h
    · exact .raise fun _ h => h

/-- `generate_report` keeps the invariant. -/
theorem generateReport_keeps : Keeps D .generateReport := by
  refine reporting_keeps rfl rfl (by decide) (fun _ _ h => h) (fun _ _ h => h) ?_
    fun rs svc s wf => ?_
  · rintro w wf m ⟨⟩ h
    exact h
  · refine (Triple.demand fun _ h => h).bind fun _ => .assume fun _ => ?_
    exact report_spec.bind fun _ => .pure fun w hw => ⟨⟨rfl, rfl, rfl, rfl, rfl⟩, hw⟩

/-! ## Terminal commits -/

/-- A terminal commit of a Task whose execution has ended or was left open keeps the invariant. -/
theorem terminal_spec {status : TaskStatus} {message : String} {metadata : Option TerminalMetadata}
    (hwf : s.workflow = some wf) (hsub : n ≠ .submitExecution ∧ n ≠ .beginTask)
    (hstage : ∀ w wf, Stage D w wf n → Closing D (nodeRuns w.log) wf) :
    Triple (fun w => Inv D rs w s (some n)) (terminal wf.activeTaskId status message metadata)
      (fun _ w => Inv D rs w s (some n)) fun w => Inv D rs w s (some n) := by
  refine .transact (fun w hw a w' h => ?_) fun _ h => h
  split_ifs at h
  split at h
  · exact absurd h (by simp)
  · rename_i task htask
    split_ifs at h
    · obtain ⟨-, rfl⟩ : a = () ∧ w = w' := by simpa using h
      exact ⟨hw, hw⟩
    · obtain ⟨-, rfl⟩ := Prod.mk.inj (Except.ok.inj h)
      suffices hinv : Inv D rs _ s (some n) from ⟨hinv, hinv⟩
      obtain ⟨wf₀, hwf₀, ht⟩ := hw.task n rfl hsub.2
      obtain rfl : wf = wf₀ := Option.some.inj (hwf.symm.trans hwf₀)
      -- The Task's row is rewritten quietly, then the entry is added.
      have hq : Quiet w { w with
          tasks := w.tasks.modifyAt wf.activeTaskId fun t =>
            { t with
              status
              terminalMessage := some message
              assistant := some (message, metadata) }
          lock := w.lock.filter fun l => l.activeTaskId ≠ wf.activeTaskId } :=
        .of_effects rfl rfl (map_modifyAt _ _ fun _ _ => rfl) (fun _ => rfl) rfl
      refine (Inv.quietClosed _ _ hw hq).note (e := .closed wf.activeTaskId task.executionId status)
        rfl fun x hx => ?_
      exact hstage w wf ht.stage x ((ht.execution hsub.1 task htask).symm.trans hx)

/-- A terminal node. -/
theorem commit_keeps (hn : n.isBusiness = true) (hroute : routeOf n = none)
    (hedge : edgeOf n = none)
    (hnode : ∀ (rs : List NodeRun) (svc : Services) (s : SessionState) (wf : WorkflowState),
      s.workflow = some wf →
      Triple (fun w => Inv D rs w s (some n)) (businessNode D svc n wf)
        (fun wf' w => wf'.activeTaskId = wf.activeTaskId ∧ Inv D rs w s (some n))
        fun w => Inv D rs w s (some n)) : Keeps D n := by
  refine keeps_of_business (fun _ wf wf' _ => wf'.activeTaskId = wf.activeTaskId) hn hnode
    (fun _ _ _ _ h => h) ?_
  intro svc w s s' wf wf' m _ _ _ _ hnext
  exact absurd (hedge.symm.trans (edge_of_successor hroute hnext)) (by simp)

/-- A commit node keeps the invariant wherever the Task is closing. -/
theorem commitWith_spec {status : TaskStatus} {message : String} (hwf : s.workflow = some wf)
    (hsub : n ≠ .submitExecution ∧ n ≠ .beginTask)
    (hstage : ∀ w wf, Stage D w wf n → Closing D (nodeRuns w.log) wf) :
    Triple (fun w => Inv D rs w s (some n)) (commitWith wf status message)
      (fun wf' w => wf'.activeTaskId = wf.activeTaskId ∧ Inv D rs w s (some n))
      fun w => Inv D rs w s (some n) :=
  (terminal_spec hwf hsub hstage).bind fun _ => .pure fun _ hw => ⟨rfl, hw⟩

/-- `commit_answer` keeps the invariant: an answered Task has no execution. -/
theorem commitAnswer_keeps : Keeps D .commitAnswer := by
  refine commit_keeps rfl rfl rfl fun rs svc s wf hwf => ?_
  refine (Triple.demand fun _ h => h).bind fun _ => .assume fun _ => ?_
  refine (terminal_spec hwf (by decide) fun w wf h => ?_).bind fun _ => .pure fun w hw => ⟨rfl, hw⟩
  have hplan : NoPlan wf := h
  exact closing_of_none hplan.executionId

/-- `commit_success` keeps the invariant: the report's Task is closed. -/
theorem commitSuccess_keeps : Keeps D .commitSuccess := by
  refine commit_keeps rfl rfl rfl fun rs svc s wf hwf => ?_
  refine (Triple.demand fun _ h => h).bind fun _ => .assume fun _ => ?_
  exact (terminal_spec (n := .commitSuccess) hwf (by decide) fun _ _ h => h).bind fun _ =>
    .pure fun w hw => ⟨rfl, hw⟩

/-- `commit_rejected` keeps the invariant: a rejected Task has no execution. -/
theorem commitRejected_keeps : Keeps D .commitRejected :=
  commit_keeps rfl rfl rfl fun _ _ _ _ hwf => commitWith_spec hwf (by decide) fun _ _ h => h

/-- `commit_blocked` keeps the invariant: a blocked Task has no execution. -/
theorem commitBlocked_keeps : Keeps D .commitBlocked := by
  refine commit_keeps rfl rfl rfl fun rs svc s wf hwf => ?_
  refine (Triple.demand fun _ h => h).bind fun _ => .assume fun _ => ?_
  exact commitWith_spec hwf (by decide) fun _ _ h => h

/-- `commit_failed` keeps the invariant: the Task's execution was left or has ended. -/
theorem commitFailed_keeps : Keeps D .commitFailed := by
  refine commit_keeps rfl rfl rfl fun rs svc s wf hwf => ?_
  refine (Triple.demand fun _ h => h).bind fun _ => .assume fun _ => ?_
  exact commitWith_spec hwf (by decide) fun _ _ h => h

/-- `commit_cancelled` keeps the invariant: the cancelled execution has ended. -/
theorem commitCancelled_keeps : Keeps D .commitCancelled :=
  commit_keeps rfl rfl rfl fun _ _ _ _ hwf => commitWith_spec hwf (by decide) fun _ _ h => h

/-! ## A new Task -/

/-- What `begin_task` makes of a turn. -/
structure Begins (s : SessionState) (turn : TaskTurn) (updated : SessionState) : Prop where
  new : s.taskRequests turn.activeTaskId = none
  workflow : updated.workflow = some (.ofTurn turn)
  active : updated.activeTaskId = some turn.activeTaskId
  execution : updated.executionId = none
  requests : ∃ fingerprint, updated.taskRequests =
    Function.update s.taskRequests turn.activeTaskId (some fingerprint)

/-- `begin_task` admits the stored turn, or goes on with the Task that is active. -/
theorem beginTask_spec : Triple I (beginTask D config s)
    (fun updated w => (∃ turn, Begins s turn updated) ∧ I w) I := by
  refine (Triple.demand fun _ h => h).bind fun turn => .assume fun _ => ?_
  refine (Triple.refuseIf fun _ h => h).bind fun _ => .assume fun _ => ?_
  refine (Triple.refuseIf fun _ h => h).bind fun _ => .assume fun _ => ?_
  refine (Triple.refuseIf fun _ h => h).bind fun _ => .assume fun _ => ?_
  refine (Triple.refuseIf fun _ h => h).bind fun _ => .assume fun hnew => .pure fun w hw => ?_
  exact ⟨⟨turn, not_not.mp hnew, rfl, rfl, rfl, D.fingerprint turn, rfl⟩, hw⟩

/-- `begin_task` keeps the invariant: a new Task is untouched. -/
theorem beginTask_keeps : Keeps D .beginTask := by
  intro rs config svc s
  refine superstep_spec (fun updated w => (∃ turn, Begins s turn updated) ∧
    Inv D rs w s (some .beginTask)) beginTask_spec (fun _ _ h => h.2) ?_
  rintro updated w s' next ⟨⟨turn, hnew, hwf, hactive, hexec, fingerprint, hreq⟩, hw⟩ hcore hnext
  obtain rfl : some .hydrateTurn = next := Except.ok.inj hnext
  have hwf' : s'.workflow = some (.ofTurn turn) := hcore.workflow.trans hwf
  have hreq' : s'.taskRequests = Function.update s.taskRequests turn.activeTaskId
      (some fingerprint) :=
    hcore.requests.trans hreq
  have hu := hw.fresh turn.activeTaskId hnew
  -- The Task that ended before is another one.
  have hother : ∀ wf, s.workflow = some wf → wf.activeTaskId ≠ turn.activeTaskId := by
    intro wf hwf hid
    exact (hw.owner wf hwf).2.1 (hid ▸ hnew)
  have hu' : Untouched (w.logged (.ran .beginTask svc s s')) turn.activeTaskId := hu.ran hother
  refine ⟨?_, fun wf₀ hwf₀ => ?_, fun taskId ht => ?_, fun i r hr => ?_, hw.plain, hw.bindings,
    hw.sound.concat trivial, fun n hn _ => ⟨.ofTurn turn, hwf', ?_⟩⟩
  · exact (nodeRuns_concat w.log _).trans (by rw [hw.runs])
  · obtain rfl := Option.some.inj (hwf'.symm.trans hwf₀)
    refine ⟨hcore.active.trans hactive, ?_, hcore.execution.trans hexec⟩
    rw [hreq']
    exact (Function.update_self turn.activeTaskId _ s.taskRequests).trans_ne (by simp)
  · rw [hreq'] at ht
    have hne : taskId ≠ turn.activeTaskId := by
      rintro rfl
      simp at ht
    rw [Function.update_of_ne hne] at ht
    refine (hw.fresh taskId ht).ran ?_
    rintro wf hwf rfl
    exact (hw.owner wf hwf).2.1 ht
  · exact ⟨(hw.revisions i r hr).1, List.mem_append_left _ (hw.revisions i r hr).2⟩
  · obtain rfl := Option.some.inj hn
    refine ⟨fun i r hr ht => absurd ht (hu'.revisions i r hr), fun p hp => absurd hp nofun,
      fun _ k row hrow => absurd (hrow.symm.trans (hu'.submits k)) (by simp),
      fun op row hrow => absurd (hrow.symm.trans (hu'.appends op)) (by simp),
      fun _ t ht => hu'.task t ht, ⟨rfl, rfl, nofun⟩, ?_⟩
    rintro review ⟨r, hr, -, ht, -⟩
    exact hu'.runs r hr ht

/-! ## Every run -/

/-- Every node keeps the invariant. -/
theorem keeps (htells : D.TellsRevision) : ∀ n, Keeps D n
  | .beginTask => beginTask_keeps
  | .hydrateTurn => hydrateTurn_keeps
  | .classifyIntent => classifyIntent_keeps
  | .clarifyRequest => clarifyRequest_keeps
  | .answerGeneral => answer_keeps (.inl rfl)
  | .answerDataQuestion => answer_keeps (.inr rfl)
  | .commitAnswer => commitAnswer_keeps
  | .chooseExecutionMode => chooseExecutionMode_keeps
  | .reviewRequestRisk => reviewRequestRisk_keeps
  | .confirmRequestRisk => confirmRequestRisk_keeps
  | .searchWorkflows => searchWorkflows_keeps
  | .chooseWorkflow => chooseWorkflow_keeps
  | .loadSelectedWorkflow => loadSelectedWorkflow_keeps
  | .buildPlan => buildPlan_keeps
  | .compileAndPersistPlan => compileAndPersistPlan_keeps
  | .reviewCompiledCodeRisk => reviewCompiledCodeRisk_keeps
  | .reviewPlan => reviewPlan_keeps
  | .verifyApproval => verifyApproval_keeps
  | .submitExecution => submitExecution_keeps
  | .registerExecution => registerExecution_keeps
  | .waitExternalSignal => waitExternalSignal_keeps
  | .reconcileExecutor => reconcileExecutor_keeps
  | .recordEventReceipt => recordEventReceipt_keeps
  | .adaptMultiPlan => adaptMultiPlan_keeps
  | .appendOperation => appendOperation_keeps htells
  | .finalizeExecution => finalizeExecution_keeps
  | .cancelExecution => cancelExecution_keeps
  | .buildReportEvidence => buildReportEvidence_keeps
  | .generateReport => generateReport_keeps
  | .commitSuccess => commitSuccess_keeps
  | .commitRejected => commitRejected_keeps
  | .commitBlocked => commitBlocked_keeps
  | .commitFailed => commitFailed_keeps
  | .commitCancelled => commitCancelled_keeps

/-- A row after an admission is the new one or an old one. -/
theorem accept_cases {taskId taskId' : Uuid} {t : TaskRow}
    (h : (w.accept taskId).tasks.get taskId' = some t) :
    w.tasks.get taskId' = some t ∨ (taskId' = taskId ∧ t = ⟨.accepted, none, none, none⟩) := by
  unfold World.accept at h
  rw [Table.get_insertIfAbsent] at h
  split at h
  · rename_i hid
    rw [hid]
    cases hold : w.tasks.get taskId with
    | none =>
      rw [hold] at h
      exact .inr ⟨rfl, (Option.some.inj h).symm⟩
    | some t' =>
      rw [hold] at h
      exact .inl h
  · exact .inl h

/-- A row stays when a Task is admitted. -/
theorem get_accept {taskId taskId' : Uuid} {t : TaskRow} (h : w.tasks.get taskId' = some t) :
    (w.accept taskId).tasks.get taskId' = some t := by
  refine (Table.get_insertIfAbsent _ _ _ _).trans ?_
  split
  · rename_i hid
    rw [← hid, h]
    rfl
  · exact h

/-- Admitting another Task keeps the invariant. -/
theorem Inv.accept {taskId : Uuid} (h : Inv D rs w s next) (hnew : s.taskRequests taskId = none) :
    Inv D rs (w.accept taskId) s next := by
  have hx : Extends w (w.accept taskId) := ⟨fun _ _ hr => hr, rfl, .refl _⟩
  refine ⟨h.runs, h.owner, fun taskId' ht => ?_, h.revisions, h.plain,
    fun taskId' b hb => ?_, h.sound, fun n hn hb => ?_⟩
  · have hu := h.fresh taskId' ht
    refine ⟨hu.revisions, hu.submits, hu.appends, fun t ht' => ?_, hu.runs⟩
    rcases accept_cases ht' with ht' | ⟨-, rfl⟩
    · exact hu.task t ht'
    · rfl
  · obtain ⟨t, ht, hexec⟩ := h.bindings taskId' b hb
    exact ⟨t, get_accept ht, hexec⟩
  · obtain ⟨wf, hwf, ht⟩ := h.task n hn hb
    refine ⟨wf, hwf, ht.bound, ht.current, fun hex k row hrow => ?_, fun op row hrow => ?_,
      fun hsub t ht' => ?_, ht.stage.mono hx⟩
    · obtain ⟨hn, hreq⟩ := ht.submits hex k row hrow
      exact ⟨hn, hreq.mono hx ht.stored⟩
    · exact (ht.appends op row hrow).mono hx rfl rfl
    · rcases accept_cases ht' with ht' | ⟨hid, -⟩
      · exact ht.execution hsub t ht'
      · exact absurd (hid ▸ hnew) (h.owner wf hwf).2.1

/-- A new turn is an input of `begin_task` and changes nothing else. -/
theorem Inv.start {turn : TaskTurn} (h : Inv D rs w s next) :
    Inv D rs w { s with turn := some turn } (some .beginTask) :=
  ⟨h.runs, h.owner, h.fresh, h.revisions, h.plain, h.bindings, h.sound,
    fun _ hn hne => absurd (Option.some.inj hn).symm hne⟩

/-- Nothing has happened yet. -/
theorem Inv.initial : Inv D [] {} {} none := by
  refine ⟨rfl, fun _ h => absurd h (by simp),
    fun _ _ => ⟨fun _ _ h => absurd h (by simp), fun _ => rfl,
    fun _ => rfl, fun _ h => absurd h (by simp), fun _ h => absurd h List.not_mem_nil⟩,
    fun _ _ h => absurd h (by simp), fun _ _ _ h => absurd h (by simp),
    fun _ _ h => absurd h (by simp),
    Each.nil _, fun _ h => absurd h (by simp)⟩

/-- Every step keeps the invariant, and it is the completed node that the log gains, if any. -/
theorem Inv.step {g g' : GraphState} {a : GraphAction} (htells : D.TellsRevision)
    (h : Inv D rs g.world g.values g.next) (hstep : graphStep D g a = some g') :
    ∃ rs', Inv D rs' g'.world g'.values g'.next ∧ (rs' = rs ∨ ∃ config svc n wf wf',
      a = .run config svc ∧ g.next = some n ∧ g.values.workflow = some wf ∧
      rs' = rs ++ [⟨n, svc, wf, wf'⟩]) := by
  cases a with
  | accept taskId =>
    unfold graphStep at hstep
    dsimp only at hstep
    split at hstep
    · exact absurd hstep (by simp)
    · rename_i hnew
      obtain rfl := Option.some.inj hstep
      exact ⟨rs, h.accept (not_not.mp hnew), .inl rfl⟩
  | start turn =>
    obtain rfl := Option.some.inj hstep
    exact ⟨rs, h.start, .inl rfl⟩
  | run config svc =>
    obtain ⟨n, hn, hstep⟩ := Option.map_eq_some_iff.mp hstep
    rw [hn] at h
    have hkeeps := keeps htells n rs config svc g.values
    dsimp only at hstep
    split at hstep
    · rename_i after next hok
      obtain rfl := hstep
      -- The log gains the node when the state had a workflow before and after it.
      refine ⟨_, hkeeps.returns _ h _ hok, ?_⟩
      cases hwf : g.values.workflow with
      | none => exact .inl (by simp [Event.nodeRun?, hwf])
      | some wf =>
        cases hwf' : after.workflow with
        | none => exact .inl (by simp [Event.nodeRun?, hwf, hwf'])
        | some wf' =>
          exact .inr ⟨config, svc, n, wf, wf', rfl, hn, rfl, by simp [Event.nodeRun?, hwf, hwf']⟩
    · rename_i e herr
      obtain rfl := hstep
      rw [hn]
      exact ⟨rs, hkeeps.raises _ h e herr, .inl rfl⟩
  | stop config svc commits =>
    obtain ⟨n, hn, hstep⟩ := Option.bind_eq_some_iff.mp hstep
    obtain ⟨w, hw, rfl⟩ := Option.map_eq_some_iff.mp hstep
    rw [hn] at h ⊢
    exact ⟨rs, (keeps htells n rs config svc g.values).stoppedAt h h hw, .inl rfl⟩

/-- The invariant holds in every state that a run reaches. -/
theorem inv_reachable {g : GraphState} (htells : D.TellsRevision)
    (hg : (sessionGraph D).Reachable g) : ∃ rs, Inv D rs g.world g.values g.next := by
  induction hg with
  | start hg =>
    obtain rfl := hg
    exact ⟨[], Inv.initial⟩
  | next _ _ hstep ih =>
    obtain ⟨rs, h⟩ := ih
    obtain ⟨rs', h', -⟩ := h.step htells hstep
    exact ⟨rs', h'⟩

/-- The step runs no node with the property. -/
def Avoids (P : Node → Services → WorkflowState → Prop) (g : GraphState) (a : GraphAction) : Prop :=
  ∀ config svc n wf, a = .run config svc → g.next = some n → g.values.workflow = some wf →
    ¬P n svc wf

instance (P : Node → Services → WorkflowState → Prop) [∀ n svc wf, Decidable (P n svc wf)]
    (g : GraphState) (a : GraphAction) : Decidable (Avoids P g a) :=
  match a, hn : g.next, hwf : g.values.workflow with
  | .run config svc, some n, some wf =>
    if h : P n svc wf then isFalse fun hav => hav config svc n wf rfl hn hwf h
    else isTrue fun _ _ n' wf' ha hn' hwf' hP => by
      obtain ⟨-, rfl⟩ := GraphAction.run.inj ha
      obtain rfl := Option.some.inj (hn.symm.trans hn')
      obtain rfl := Option.some.inj (hwf.symm.trans hwf')
      exact h hP
  | .run .., none, _ => isTrue fun _ _ _ _ _ hn' => absurd (hn.symm.trans hn') (by simp)
  | .run .., _, none => isTrue fun _ _ _ _ _ _ hwf' => absurd (hwf.symm.trans hwf') (by simp)
  | .accept _, _, _ => isTrue fun _ _ _ _ ha => absurd ha (by simp)
  | .start _, _, _ => isTrue fun _ _ _ _ ha => absurd ha (by simp)
  | .stop .., _, _ => isTrue fun _ _ _ _ ha => absurd ha (by simp)

/-- No completed node of a run has a property that its steps avoid. -/
theorem inv_avoids {P : Node → Services → WorkflowState → Prop} {g : GraphState}
    (htells : D.TellsRevision) (hg : (sessionGraph D).ReachableWhen (Avoids P) g) :
    ∃ rs, Inv D rs g.world g.values g.next ∧ ∀ r ∈ rs, ¬P r.node r.svc r.before := by
  induction hg with
  | start hg =>
    obtain rfl := hg
    exact ⟨[], Inv.initial, fun r hr => absurd hr List.not_mem_nil⟩
  | next _ hc hstep ih =>
    obtain ⟨rs, h, havoid⟩ := ih
    obtain ⟨rs', h', rfl | ⟨config, svc, n, wf, wf', rfl, hn, hwf, rfl⟩⟩ := h.step htells hstep
    · exact ⟨rs', h', havoid⟩
    · refine ⟨_, h', fun r hr => ?_⟩
      rcases List.mem_append.mp hr with hr | hr
      · exact havoid r hr
      · obtain rfl := List.mem_singleton.mp hr
        exact hc config svc n wf rfl hn hwf

end

end ExAgent.Graph
