import ExAgent.Graph.Invariant

/-!
# The nodes keep the invariant

One lemma for each node: run to its end, the node and its edge leave a checkpoint with the
invariant; stopped or raising, they leave tables with the invariant of the checkpoint that is still
there (`Keeps`). A node that commits nothing the invariant looks at is a statement about the
workflow only, and what has to be shown is the `Stage` of the node its route picks. The nodes that
persist a revision or hand Steps to the Executor have their commits looked at one by one.
-/

namespace ExAgent.Graph

open Lib Prog

/-- A node keeps the invariant wherever it stops. -/
def Keeps (D : Deployment) (n : Node) : Prop :=
  ∀ (rs : List NodeRun) (config : Config) (svc : Services) (s : SessionState),
    Triple (fun w => Inv D rs w s (some n)) (superstep D config svc n s)
      (fun r w => Inv D (rs ++ (Event.ran n svc s r.1).nodeRun?.toList)
        (w.logged (.ran n svc s r.1)) r.1 r.2) fun w => Inv D rs w s (some n)

section

variable {D : Deployment} {rs : List NodeRun} {config : Config} {svc : Services} {w : World}
    {s s' : SessionState}
  {wf wf' : WorkflowState} {n m : Node} {next : Option Node} {I : World → Prop}

/-! ## From a business node to a node of the session -/

/-- The parts of the session that the invariant reads. -/
structure SameCore (s s' : SessionState) : Prop where
  workflow : s'.workflow = s.workflow
  active : s'.activeTaskId = s.activeTaskId
  requests : s'.taskRequests = s.taskRequests
  execution : s'.executionId = s.executionId

/-- The receipt of a request touches nothing else. -/
theorem receipt_spec {updated : SessionState} :
    Triple I (if n.isInput then stampReceipt config n s updated else pure updated)
      (fun s' w => SameCore updated s' ∧ I w) I := by
  have hsame : Triple I (pure updated : Run SessionState)
      (fun s' w => SameCore updated s' ∧ I w) I :=
    .pure fun w hw => ⟨⟨rfl, rfl, rfl, rfl⟩, hw⟩
  cases n.isInput with
  | false => exact hsame
  | true =>
    show Triple I (stampReceipt config n s updated) _ I
    unfold stampReceipt
    cases config.apiAction with
    | none => exact hsame
    | some action =>
      dsimp only
      by_cases htarget : action.targetNode ≠ n
      · rw [if_pos htarget]
        exact hsame
      · rw [if_neg htarget]
        refine (Triple.refuseIf fun _ h => h).bind fun _ => .assume fun _ => ?_
        cases s.apiReceipts action.requestId with
        | none => exact .pure fun w hw => ⟨⟨rfl, rfl, rfl, rfl⟩, hw⟩
        | some stored =>
          exact (Triple.refuseIf fun _ h => h).bind fun _ => .assume fun _ => hsame

/-- The nodes that `lift_node` runs. -/
def Node.isBusiness : Node → Bool
  | .beginTask | .registerExecution | .waitExternalSignal | .recordEventReceipt => false
  | _ => true

/-- A business node runs its body on the active Task. -/
theorem nodeBody_business (hn : n.isBusiness = true) :
    nodeBody D config svc n s = liftNode (businessNode D svc n) s := by
  cases n <;> first | rfl | exact absurd hn (by decide)

/-- The receipt and the route of a node, after its body. -/
theorem superstep_spec (Body : SessionState → World → Prop)
    (hbody : Triple (fun w => Inv D rs w s (some n)) (nodeBody D config svc n s) Body
      fun w => Inv D rs w s (some n))
    (hinv : ∀ updated w, Body updated w → Inv D rs w s (some n))
    (hpost : ∀ updated w s' next, Body updated w → SameCore updated s' →
      successor n s' = .ok next → Inv D (rs ++ (Event.ran n svc s s').nodeRun?.toList)
        (w.logged (.ran n svc s s')) s' next) :
    Triple (fun w => Inv D rs w s (some n)) (superstep D config svc n s)
      (fun r w => Inv D (rs ++ (Event.ran n svc s r.1).nodeRun?.toList)
        (w.logged (.ran n svc s r.1)) r.1 r.2) fun w => Inv D rs w s (some n) := by
  have hrun : Triple (fun w => Inv D rs w s (some n)) (runNode D config svc n s)
      (fun s' w => ∃ updated, SameCore updated s' ∧ Body updated w) fun w =>
        Inv D rs w s (some n) := by
    refine hbody.bind fun updated => ?_
    exact receipt_spec.weaken (fun _ h => h) (fun s' w h => ⟨updated, h.1, h.2⟩)
      (fun w h => hinv updated w h)
  refine hrun.bind fun s' => ?_
  refine (Triple.ofExcept fun w hw => ?_).bind fun next => .assume fun hnext => .pure fun w hw => ?_
  · obtain ⟨updated, -, hw⟩ := hw
    exact hinv updated w hw
  · obtain ⟨updated, hcore, hw⟩ := hw
    exact hpost updated w s' next hw hcore hnext

/-- A Session with the same core carries the same Task on. -/
theorem SameTask.of_core {updated : SessionState} (h : SameTask s updated wf wf')
    (hcore : SameCore updated s') : SameTask s s' wf wf' :=
  ⟨h.before, hcore.workflow.trans h.after, hcore.active.trans h.active,
    hcore.requests.trans h.requests, hcore.execution.trans h.execution, h.task⟩

/-- What is left to show of a node after `begin_task`: a contract of its body, and the invariant of
the checkpoint it leaves. -/
theorem keeps_of_body (Post : Services → WorkflowState → WorkflowState → World → Prop)
    (hb : n ≠ .beginTask)
    (hbody : ∀ (rs : List NodeRun) (config : Config) (svc : Services) (s : SessionState),
      Triple (fun w => Inv D rs w s (some n)) (nodeBody D config svc n s)
        (fun updated w => (∃ wf wf', SameTask s updated wf wf' ∧ Post svc wf wf' w) ∧
          Inv D rs w s (some n)) fun w => Inv D rs w s (some n))
    (hpost : ∀ svc w s s' wf wf' m, Inv D (nodeRuns w.log) w s (some n) → Post svc wf wf' w →
      SameTask s s' wf wf' → TaskInv D w wf n → successor n s' = .ok (some m) →
      TaskInv D (w.logged (.ran n svc s s')) wf' m) : Keeps D n := by
  intro rs config svc s
  refine superstep_spec _ (hbody rs config svc s) (fun _ _ h => h.2) ?_
  rintro updated w s' next ⟨⟨wf, wf', hst, hp⟩, hw⟩ hcore hnext
  have hst := hst.of_core hcore
  refine hw.ran hst fun m hm _ => ?_
  obtain ⟨wf₀, hwf₀, ht⟩ := hw.task n rfl hb
  obtain rfl : wf = wf₀ := Option.some.inj (hst.before.symm.trans hwf₀)
  exact hpost svc w s s' wf wf' m (hw.runs.symm ▸ hw) hp hst ht (hm ▸ hnext)

/-- The same for a business node, which is a function of the workflow. -/
theorem keeps_of_business (Post : Services → WorkflowState → WorkflowState → World → Prop)
    (hn : n.isBusiness = true)
    (hnode : ∀ (rs : List NodeRun) (svc : Services) (s : SessionState) (wf : WorkflowState),
      s.workflow = some wf →
      Triple (fun w => Inv D rs w s (some n)) (businessNode D svc n wf)
        (fun wf' w => Post svc wf wf' w ∧ Inv D rs w s (some n)) fun w => Inv D rs w s (some n))
    (htask : ∀ svc wf wf' w, Post svc wf wf' w → wf'.activeTaskId = wf.activeTaskId)
    (hpost : ∀ svc w s s' wf wf' m, Inv D (nodeRuns w.log) w s (some n) → Post svc wf wf' w →
      SameTask s s' wf wf' → TaskInv D w wf n → successor n s' = .ok (some m) →
      TaskInv D (w.logged (.ran n svc s s')) wf' m) : Keeps D n := by
  refine keeps_of_body Post ?_ (fun rs config svc s => ?_) hpost
  · rintro rfl
    exact absurd hn (by decide)
  · rw [nodeBody_business hn]
    refine (Triple.demand fun _ h => h).bind fun wf => .assume fun hwf => ?_
    refine (hnode rs svc s wf hwf).bind fun wf' => .pure fun w hw => ?_
    exact ⟨⟨wf, wf', ⟨hwf, rfl, rfl, rfl, rfl, htask svc wf wf' w hw.1⟩, hw.1⟩, hw.2⟩

/-! ## Facts along a completed node -/

/-- The completed nodes after one more. -/
theorem SameTask.runs (h : SameTask s s' wf wf') (n : Node) (svc : Services) (w : World) :
    nodeRuns (w.logged (.ran n svc s s')).log = nodeRuns w.log ++ [⟨n, svc, wf, wf'⟩] :=
  nodeRuns_concat_ran w.log h.before h.after

/-- A route is taken on the workflow after the node. -/
theorem SameTask.route (h : SameTask s s' wf wf') {route : WorkflowState → Except Raised Node}
    (hroute : routeOf n = some route) (hnext : successor n s' = .ok (some m)) :
    route wf' = .ok m := by
  unfold successor at hnext
  rw [hroute, h.after] at hnext
  dsimp only at hnext
  cases hr : route wf' with
  | error e =>
    rw [hr] at hnext
    exact absurd hnext (by simp [Except.map])
  | ok m' =>
    rw [hr] at hnext
    obtain rfl : m' = m := by simpa [Except.map] using hnext
    rfl

/-- An edge does not look at the state. -/
theorem edge_of_successor (hroute : routeOf n = none) (hnext : successor n s' = .ok (some m)) :
    edgeOf n = some m := by
  unfold successor at hnext
  rw [hroute] at hnext
  exact Except.ok.inj hnext

/-- A Task without a risk review stays so under runs of other nodes. -/
theorem Unreviewed.concat {rs : List NodeRun} {taskId : Uuid} (h : Unreviewed rs taskId)
    {r : NodeRun} (hr : r.node ≠ .reviewRequestRisk) : Unreviewed (rs ++ [r]) taskId := by
  intro review hreview
  rcases requestReview_concat hreview with hreview | ⟨hn, -⟩
  · exact h review hreview
  · exact hr hn

/-- A Task cleared of risk stays cleared under runs of other nodes. -/
theorem Cleared.ran (h : Cleared (nodeRuns w.log) wf.activeTaskId) (hst : SameTask s s' wf wf')
    (hn : n ≠ .reviewRequestRisk) :
    Cleared (nodeRuns (w.logged (.ran n svc s s')).log) wf'.activeTaskId := by
  rw [hst.runs, hst.task]
  exact h.concat hn

/-- A Task without a risk review stays so after one more run of another node. -/
theorem Unreviewed.ran (h : Unreviewed (nodeRuns w.log) wf.activeTaskId)
    (hst : SameTask s s' wf wf') (hn : n ≠ .reviewRequestRisk) :
    Unreviewed (nodeRuns (w.logged (.ran n svc s s')).log) wf'.activeTaskId := by
  rw [hst.runs, hst.task]
  exact h.concat hn

/-- A Task stays in execution after one more run of another node. -/
theorem InExecution.ran (h : InExecution w wf) (hst : SameTask s s' wf wf')
    (hn : n ≠ .reviewRequestRisk) (hsingle : FixedSingle wf')
    (hx : wf'.executionId = wf.executionId) : InExecution (w.logged (.ran n svc s s')) wf' :=
  ⟨h.cleared.ran hst hn, hsingle, hx ▸ h.submitted⟩

/-- A review of the compiled code stays the last one after a run of another node. -/
theorem Reviewed.ran {p : PersistedPlan} {r : Revision} {review : RiskReview}
    (h : Reviewed w wf p r review) (hst : SameTask s s' wf wf') (hn : n ≠ .reviewCompiledCodeRisk)
    (hp : wf'.persisted = wf.persisted) (hrisk : wf'.codeRisk = wf.codeRisk) :
    Reviewed (w.logged (.ran n svc s s')) wf' p r review := by
  obtain ⟨e, he, hreviews⟩ := h.gated
  refine ⟨hp.trans h.persisted, h.stored, hrisk.trans h.codeRisk, ?_, h.level, e,
    sublist_concat he _, hreviews⟩
  rw [hst.runs, lastCodeReview_concat hn]
  exact h.last

/-- An approval by review stays the last one after a run of another node. -/
theorem ApprovedByReview.ran {p : PersistedPlan} {review : RiskReview}
    (h : ApprovedByReview w.log wf p review) (hst : SameTask s s' wf wf') (hn : n ≠ .reviewPlan) :
    ApprovedByReview (w.logged (.ran n svc s s')).log wf' p review := by
  refine ⟨?_, ?_⟩
  · rw [hst.task]
    exact h.1.mono (List.sublist_append_left _ _)
  · rw [hst.runs, hst.task, lastApproval_concat hn]
    exact h.2

/-- An approval stays the last one after a run of another node. -/
theorem Approved.ran {p : PersistedPlan} {review : RiskReview} (h : Approved w.log wf p review)
    (hst : SameTask s s' wf wf') (hn : n ≠ .reviewPlan)
    (hkind : wf'.planningKind = wf.planningKind) :
    Approved (w.logged (.ran n svc s s')).log wf' p review := by
  refine h.imp (fun h => h.ran hst hn) fun h => ⟨hkind.trans h.1, ?_⟩
  rw [hst.task]
  exact h.2.mono (List.sublist_append_left _ _)

/-- An execution that was left open stays so in a longer log. -/
theorem LeftOpen.concat {rs : List NodeRun} (h : LeftOpen D rs) (r : NodeRun) :
    LeftOpen D (rs ++ [r]) := by
  obtain ⟨r', hr', h⟩ := h
  exact ⟨r', List.mem_append_left _ hr', h⟩

/-- A Task that is closing goes on closing after a run of another node. -/
theorem Closing.ran (h : Closing D (nodeRuns w.log) wf) (hst : SameTask s s' wf wf')
    (hn : n ≠ .reconcileExecutor) (hx : wf'.executionId = wf.executionId) :
    Closing D (nodeRuns (w.logged (.ran n svc s s')).log) wf' := by
  intro x hexec
  rw [hst.runs]
  refine (h x (hx ▸ hexec)).imp (fun h => ?_) fun h => h.concat _
  obtain ⟨status, hlast, hterminal⟩ := h
  exact ⟨status, (lastReconciled_concat hn x).trans hlast, hterminal⟩

/-! ## Conversation -/

/-- A Task without a plan stays without one while plan and execution are not set. -/
theorem NoPlan.of_eq (h : NoPlan wf) (hp : wf'.persisted = wf.persisted)
    (hx : wf'.executionId = wf.executionId) (hk : wf'.planningKind ≠ some .fixedWorkflow) :
    NoPlan wf' :=
  ⟨hp.trans h.persisted, hx.trans h.executionId, hk⟩

/-- `hydrate_turn` keeps the invariant: it restores what the turn admitted. -/
theorem hydrateTurn_keeps : Keeps D .hydrateTurn := by
  refine keeps_of_business (fun _ wf wf' _ => wf' = { wf with
    phase := .classifying
    clarificationCount := some (wf.clarificationCount.getD 0)
    correctionCount := some 0
    riskAcknowledged := some false }) rfl ?_ ?_ ?_
  · intro rs svc s wf _
    exact (updateStatus_spec Inv.quietClosed _ _).bind fun _ => .pure fun w hw => ⟨rfl, hw⟩
  · rintro svc wf _ w rfl
    rfl
  · rintro svc w s s' wf _ m - rfl hst ht hnext
    obtain rfl : .classifyIntent = m := Option.some.inj (edge_of_successor rfl hnext)
    obtain ⟨hplan, hun⟩ : NoPlan wf ∧ Unreviewed _ _ := ht.stage
    exact ht.carry (fun _ h => h) (by decide) rfl rfl rfl
      ⟨hplan.of_eq rfl rfl hplan.planningKind, hun.ran hst (by decide), rfl⟩

/-- Where `route_intent` leads. -/
theorem routeIntent_cases (h : routeIntent wf = .ok m) : m = .clarifyRequest ∨ m = .answerGeneral ∨
    m = .answerDataQuestion ∨ m = .reviewRequestRisk ∨ m = .chooseExecutionMode := by
  unfold routeIntent at h
  cases hd : wf.intentDecision with
  | none =>
    rw [hd] at h
    exact absurd h (by simp [routeKey, bind, Except.bind])
  | some decision =>
    rw [hd] at h
    simp only [routeKey, bind, Except.bind, pure, Except.pure] at h
    split at h
    · exact .inl (Except.ok.inj h).symm
    · split at h
      · exact .inr (.inl (Except.ok.inj h).symm)
      · exact .inr (.inr (.inl (Except.ok.inj h).symm))
      · exact .inr (.inr (.inr (.inl (Except.ok.inj h).symm)))
      · have h := Except.ok.inj h
        split at h
        · exact .inr (.inr (.inr (.inl h.symm)))
        · exact .inr (.inr (.inr (.inr h.symm)))

/-- The workflow before a plan, after a node that changes nothing of it. -/
structure EarlyStep (wf wf' : WorkflowState) : Prop where
  task : wf'.activeTaskId = wf.activeTaskId
  persisted : wf'.persisted = wf.persisted
  executionId : wf'.executionId = wf.executionId
  planningKind : wf.planningKind ≠ some .fixedWorkflow → wf'.planningKind ≠ some .fixedWorkflow
  riskAcknowledged : wf'.riskAcknowledged = wf.riskAcknowledged

/-- An early node leaves a Task without a plan so. -/
theorem EarlyStep.noPlan (h : EarlyStep wf wf') (hplan : NoPlan wf) : NoPlan wf' :=
  hplan.of_eq h.persisted h.executionId (h.planningKind hplan.planningKind)

/-- `classify_intent` sets the decision, the planning kind and the mode only. -/
theorem classifyIntent_spec : Triple I (classifyIntent svc wf) (fun wf' w => (∃ decision kind mode,
    (kind = some .fixedWorkflow → wf.planningKind = some .fixedWorkflow) ∧ wf' = { wf with
      intentDecision := some decision
      planningKind := kind
      executionMode := mode }) ∧ I w) I := by
  refine (Triple.ofExcept fun _ h => h).bind fun decision => .assume fun _ => ?_
  cases decision.intent with
  | generalQa | dataAnalysisQa =>
    exact .pure fun w hw => ⟨⟨decision, wf.planningKind, wf.executionMode, id, rfl⟩, hw⟩
  | codeExecution | dataAnalysisExecution =>
    exact .pure fun w hw => ⟨⟨decision, _, _, by simp, rfl⟩, hw⟩

/-- `classify_intent` keeps the invariant: it runs before any plan. -/
theorem classifyIntent_keeps : Keeps D .classifyIntent := by
  refine keeps_of_business (fun _ wf wf' _ => EarlyStep wf wf') rfl ?_
    (fun _ _ _ _ h => h.task) ?_
  · intro rs svc s wf _
    refine classifyIntent_spec.weaken (fun _ h => h) (fun wf' w h => ⟨?_, h.2⟩) fun _ h => h
    obtain ⟨decision, kind, mode, hkind, rfl⟩ := h.1
    exact ⟨rfl, rfl, rfl, fun hno hfix => hno (hkind hfix), rfl⟩
  · intro svc w s s' wf wf' m _ hp hst ht hnext
    obtain ⟨hplan, hun, hack⟩ : NoPlan wf ∧ Unreviewed _ _ ∧ _ := ht.stage
    have hplan' := hp.noPlan hplan
    refine ht.carry (fun _ h => h) (by decide) hp.task hp.persisted hp.executionId ?_
    have hearly : NoPlan wf' ∧
        Unreviewed (nodeRuns (w.logged (.ran .classifyIntent svc s s')).log) wf'.activeTaskId ∧
        wf'.riskAcknowledged = some false :=
      ⟨hplan', hun.ran hst (by decide), hp.riskAcknowledged.trans hack⟩
    rcases routeIntent_cases (hst.route rfl hnext) with rfl | rfl | rfl | rfl | rfl
    · exact hearly
    · exact hplan'
    · exact hplan'
    · exact hearly
    · exact hearly

/-- A node before the request is reviewed that is followed by an edge to another such node. -/
theorem early_keeps (hn : n.isBusiness = true) (hroute : routeOf n = none)
    (hstage : ∀ w wf, Stage D w wf n ↔ NoPlan wf ∧ Unreviewed (nodeRuns w.log) wf.activeTaskId ∧
      wf.riskAcknowledged = some false)
    (hstage' : ∀ w wf m, edgeOf n = some m → (Stage D w wf m ↔ NoPlan wf ∧
      Unreviewed (nodeRuns w.log) wf.activeTaskId ∧ wf.riskAcknowledged = some false))
    (hne : n ≠ .reviewRequestRisk ∧ n ≠ .submitExecution)
    (hpend : ∀ wf payload, ¬Pending wf payload n)
    (hnode : ∀ (rs : List NodeRun) (svc : Services) (s : SessionState) (wf : WorkflowState),
      Triple (fun w => Inv D rs w s (some n)) (businessNode D svc n wf)
        (fun wf' w => EarlyStep wf wf' ∧ Inv D rs w s (some n)) fun w => Inv D rs w s (some n)) :
    Keeps D n := by
  refine keeps_of_business (fun _ wf wf' _ => EarlyStep wf wf') hn
    (fun rs svc s wf _ => hnode rs svc s wf) (fun _ _ _ _ h => h.task) ?_
  intro svc w s s' wf wf' m _ hp hst ht hnext
  obtain ⟨hplan, hun, hack⟩ := (hstage w wf).mp ht.stage
  refine ht.carry (hpend wf) hne.2 hp.task hp.persisted hp.executionId ?_
  exact (hstage' _ _ m (edge_of_successor hroute hnext)).mpr
    ⟨hp.noPlan hplan, hun.ran hst hne.1, hp.riskAcknowledged.trans hack⟩

/-- An answer that is validated is what the interrupt returned. -/
theorem resumeSignal_spec : Triple I (resumeSignal svc)
    (fun signal w => svc.resume = some signal ∧ I w) I := by
  refine (Triple.demand fun _ h => h).bind fun raw => .assume fun hraw => ?_
  cases raw with
  | worker _ | malformed => exact .raise fun _ h => h
  | _ => exact .pure fun w hw => ⟨hraw, hw⟩

/-- `clarify_request` sets the message and the count only. -/
theorem clarifyRequest_spec : Triple I (clarifyRequest svc wf) (fun wf' w => (∃ message count,
    wf' = { wf with userMessage := message, clarificationCount := count }) ∧ I w) I := by
  refine (Triple.demand fun _ h => h).bind fun _ => .assume fun _ => ?_
  refine resumeSignal_spec.bind fun _ => .assume fun _ => ?_
  refine (Triple.demand fun _ h => h).bind fun _ => .assume fun _ => ?_
  exact .pure fun w hw => ⟨⟨_, _, rfl⟩, hw⟩

/-- `clarify_request` keeps the invariant: it runs before any plan. -/
theorem clarifyRequest_keeps : Keeps D .clarifyRequest := by
  refine early_keeps rfl rfl (fun _ _ => Iff.rfl) ?_ (by decide) (fun _ _ h => h) ?_
  · rintro w wf m ⟨⟩
    exact Iff.rfl
  · intro rs svc s wf
    refine clarifyRequest_spec.weaken (fun _ h => h) (fun wf' w h => ⟨?_, h.2⟩) fun _ h => h
    obtain ⟨message, count, rfl⟩ := h.1
    exact ⟨rfl, rfl, rfl, id, rfl⟩

/-- `choose_execution_mode` sets the mode and the planning kind only. -/
theorem chooseExecutionMode_spec : Triple I (chooseExecutionMode svc wf) (fun wf' w => (∃ mode,
    wf' = { wf with executionMode := some mode, planningKind := some .customCode }) ∧ I w) I := by
  refine resumeSignal_spec.bind fun _ => .assume fun _ => ?_
  refine (Triple.demand fun _ h => h).bind fun mode => .assume fun _ => ?_
  exact .pure fun w hw => ⟨⟨mode, rfl⟩, hw⟩

/-- `choose_execution_mode` keeps the invariant: it runs before any plan. -/
theorem chooseExecutionMode_keeps : Keeps D .chooseExecutionMode := by
  refine early_keeps rfl rfl (fun _ _ => Iff.rfl) ?_ (by decide) (fun _ _ h => h) ?_
  · rintro w wf m ⟨⟩
    exact Iff.rfl
  · intro rs svc s wf
    refine chooseExecutionMode_spec.weaken (fun _ h => h) (fun wf' w h => ⟨?_, h.2⟩) fun _ h => h
    obtain ⟨mode, rfl⟩ := h.1
    exact ⟨rfl, rfl, rfl, fun _ => by simp, rfl⟩

/-- Both answer nodes keep the invariant: an answered Task has no plan. -/
theorem answer_keeps (hn : n = .answerGeneral ∨ n = .answerDataQuestion) : Keeps D n := by
  refine keeps_of_business (fun _ wf wf' _ => EarlyStep wf wf') ?_ ?_
    (fun _ _ _ _ h => h.task) ?_
  · rcases hn with rfl | rfl <;> rfl
  · intro rs svc s wf _
    have hanswer : businessNode D svc n wf = answerQuestion svc wf := by
      rcases hn with rfl | rfl <;> rfl
    rw [hanswer]
    refine (updateStatus_spec Inv.quietClosed _ _).bind fun _ => ?_
    refine (Triple.ofExcept fun _ h => h).bind fun _ => .assume fun _ => ?_
    exact .pure fun w hw => ⟨⟨rfl, rfl, rfl, id, rfl⟩, hw⟩
  · intro svc w s s' wf wf' m _ hp hst ht hnext
    have hplan : NoPlan wf := by rcases hn with rfl | rfl <;> exact ht.stage
    obtain rfl : .commitAnswer = m := by
      rcases hn with rfl | rfl <;> exact Option.some.inj (edge_of_successor rfl hnext)
    have hpend : ∀ payload, ¬Pending wf payload n := by
      rcases hn with rfl | rfl <;> exact fun _ h => h
    have hsub : n ≠ .submitExecution := by rcases hn with rfl | rfl <;> decide
    exact ht.carry hpend hsub hp.task hp.persisted hp.executionId (hp.noPlan hplan)

/-! ## The risk of the request -/

/-- Where `route_request_risk` leads. -/
theorem routeRequestRisk_cases (h : routeRequestRisk wf = .ok m) :
    ∃ review, wf.requestRisk = some review ∧
      ((review.level = .critical ∧ m = .commitBlocked) ∨
        (review.level = .high ∧ wf.riskAcknowledged.getD false = false ∧ m = .confirmRequestRisk) ∨
        (review.level ≠ .critical ∧
          ¬(review.level = .high ∧ wf.riskAcknowledged.getD false = false) ∧
          (m = .searchWorkflows ∨ m = .buildPlan))) := by
  unfold routeRequestRisk at h
  cases hr : wf.requestRisk with
  | none =>
    rw [hr] at h
    exact absurd h (by simp [routeKey, bind, Except.bind])
  | some review =>
    rw [hr] at h
    refine ⟨review, rfl, ?_⟩
    simp only [routeKey, bind, Except.bind, pure, Except.pure] at h
    split_ifs at h with hc hh
    · exact .inl ⟨hc, (Except.ok.inj h).symm⟩
    · exact .inr (.inl ⟨hh.1, hh.2, (Except.ok.inj h).symm⟩)
    · refine .inr (.inr ⟨hc, hh, ?_⟩)
      cases hd : wf.intentDecision with
      | none =>
        rw [hd] at h
        exact absurd h (by simp)
      | some decision =>
        rw [hd] at h
        have h := Except.ok.inj h
        split at h
        · exact .inl h.symm
        · exact .inr h.symm

/-- Without an execution nothing can be left open. -/
theorem closing_of_none {rs : List NodeRun} (h : wf.executionId = none) : Closing D rs wf := by
  intro x hx
  exact absurd (h.symm.trans hx) (by simp)

/-- A plan is built for a cleared request of a Task without a fixed workflow. -/
theorem planned_of_cleared (hclr : Cleared (nodeRuns w.log) wf.activeTaskId)
    (hkind : wf.planningKind ≠ some .fixedWorkflow) :
    Cleared (nodeRuns w.log) wf.activeTaskId ∧ FixedSingle wf ∧ FixedRevised wf :=
  ⟨hclr, fun h => absurd h hkind, fun h => absurd h hkind⟩

/-- `review_request_risk` sets the review and changes nothing else. -/
theorem reviewRequestRisk_spec : Triple I (reviewRequestRisk svc wf) (fun wf' w =>
    (∃ review, svc.requestReview = .ok review ∧ wf' = { wf with requestRisk := some review }) ∧ I w)
    I := by
  refine (Triple.ofExcept fun _ h => h).bind fun review => .assume fun hreview => ?_
  exact .pure fun w hw => ⟨⟨review, hreview, rfl⟩, hw⟩

/-- `review_request_risk` keeps the invariant: the review it sets is the last one of the log. -/
theorem reviewRequestRisk_keeps : Keeps D .reviewRequestRisk := by
  refine keeps_of_business (fun svc wf wf' _ => ∃ review, svc.requestReview = .ok review ∧
    wf' = { wf with requestRisk := some review }) rfl
    (fun _ _ _ _ _ => reviewRequestRisk_spec) ?_ ?_
  · rintro svc wf _ w ⟨review, -, rfl⟩
    rfl
  · rintro svc w s s' wf _ m - ⟨review, hreview, rfl⟩ hst ht hnext
    obtain ⟨hplan, hun, hack⟩ : NoPlan wf ∧ Unreviewed _ _ ∧ _ := ht.stage
    refine ht.carry (fun _ h => h) (by decide) rfl rfl rfl ?_
    -- The review that was just made is the only one.
    have honly : ∀ review',
      RequestReview (nodeRuns (w.logged (.ran .reviewRequestRisk svc s s')).log)
        wf.activeTaskId review' → review' = review := by
      intro review' h
      rw [hst.runs] at h
      rcases requestReview_concat h with h | ⟨-, h⟩
      · exact absurd h (hun review')
      · exact (Except.ok.inj (hreview.symm.trans h)).symm
    obtain ⟨review₀, hr₀, hcases⟩ := routeRequestRisk_cases (hst.route rfl hnext)
    obtain rfl : review = review₀ := Option.some.inj hr₀
    rcases hcases with ⟨-, rfl⟩ | ⟨hhigh, -, rfl⟩ | ⟨hcrit, hnot, hm⟩
    · exact closing_of_none hplan.executionId
    · exact ⟨hplan.of_eq rfl rfl hplan.planningKind, fun review' h => honly review' h ▸ hhigh⟩
    · have hclr : Cleared (nodeRuns (w.logged (.ran .reviewRequestRisk svc s s')).log)
          wf.activeTaskId := by
        intro review' h
        obtain rfl := honly review' h
        refine ⟨hcrit, fun hhigh => absurd ⟨hhigh, ?_⟩ hnot⟩
        show wf.riskAcknowledged.getD false = false
        rw [hack]
        rfl
      rcases hm with rfl | rfl
      · exact ⟨hplan.of_eq rfl rfl hplan.planningKind, hclr⟩
      · exact planned_of_cleared hclr hplan.planningKind

/-- The answer to a confirmation. -/
theorem riskConfirmation_of {signal : Resume} {confirmed : Bool}
    (h : signal.riskConfirmation? = some confirmed) : signal = .riskConfirmation confirmed := by
  cases signal <;> simp_all [Resume.riskConfirmation?]

/-- `confirm_request_risk` records that the user confirmed, or makes the risk critical. -/
theorem confirmRequestRisk_spec : Triple I (confirmRequestRisk svc wf) (fun wf' w =>
    ((svc.resume = some (.riskConfirmation true) ∧
      wf' = { wf with riskAcknowledged := some true }) ∨
      ∃ review : RiskReview,
        wf' = { wf with requestRisk := some { review with level := .critical } }) ∧ I w) I := by
  refine (Triple.demand fun _ h => h).bind fun review => .assume fun _ => ?_
  refine resumeSignal_spec.bind fun signal => .assume fun hsignal => ?_
  refine (Triple.demand fun _ h => h).bind fun confirmed => .assume fun hconfirmed => ?_
  obtain rfl := riskConfirmation_of hconfirmed
  cases confirmed with
  | true => exact .pure fun w hw => ⟨.inl ⟨hsignal, rfl⟩, hw⟩
  | false => exact .pure fun w hw => ⟨.inr ⟨review, rfl⟩, hw⟩

/-- `confirm_request_risk` keeps the invariant: it goes on only when the user confirmed. -/
theorem confirmRequestRisk_keeps : Keeps D .confirmRequestRisk := by
  refine keeps_of_business (fun svc wf wf' _ =>
    (svc.resume = some (.riskConfirmation true) ∧ wf' = { wf with riskAcknowledged := some true }) ∨
    ∃ review : RiskReview,
      wf' = { wf with requestRisk := some { review with level := .critical } }) rfl
    (fun _ _ _ _ _ => confirmRequestRisk_spec) ?_ ?_
  · rintro svc wf _ w (⟨-, rfl⟩ | ⟨review, rfl⟩) <;> rfl
  · rintro svc w s s' wf wf' m - hp hst ht hnext
    obtain ⟨hplan, hhigh⟩ : NoPlan wf ∧ _ := ht.stage
    obtain ⟨review, hreview, hcases⟩ := routeRequestRisk_cases (hst.route rfl hnext)
    rcases hp with ⟨hconfirm, rfl⟩ | ⟨review', rfl⟩
    · refine ht.carry (fun _ h => h) (by decide) rfl rfl rfl ?_
      have hclr : Cleared (nodeRuns (w.logged (.ran .confirmRequestRisk svc s s')).log)
          wf.activeTaskId := by
        rw [hst.runs]
        intro review' h
        rcases requestReview_concat h with h | ⟨h, -⟩
        · refine ⟨by rw [hhigh review' h]; decide, fun _ => ?_⟩
          exact ⟨_, List.mem_append_right _ (List.mem_singleton.mpr rfl), rfl, rfl, hconfirm⟩
        · exact absurd h (by simp)
      rcases hcases with ⟨-, rfl⟩ | ⟨-, hack, -⟩ | ⟨-, -, rfl | rfl⟩
      · exact closing_of_none hplan.executionId
      · exact absurd hack (by simp)
      · exact ⟨hplan.of_eq rfl rfl hplan.planningKind, hclr⟩
      · exact planned_of_cleared hclr hplan.planningKind
    · -- A risk that is not confirmed counts as CRITICAL.
      refine ht.carry (fun _ h => h) (by decide) rfl rfl rfl ?_
      obtain rfl := Option.some.inj hreview
      rcases hcases with ⟨-, rfl⟩ | ⟨h, -, -⟩ | ⟨h, -, -⟩
      · exact closing_of_none hplan.executionId
      · exact absurd h (by simp)
      · exact absurd rfl h

end

end ExAgent.Graph
