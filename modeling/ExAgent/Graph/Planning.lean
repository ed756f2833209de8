import ExAgent.Graph.Steps

/-!
# The planning nodes keep the invariant

From the proposal of workflows to the lock that an approved plan takes. Two nodes persist a
revision. It is in the tables before the state knows it, so the invariant at such a node says of a
revision that is ahead of the state that its payload is the plan in the state (`Pending`). The
reviews and approvals enter the log with the checkpoint of their node.
-/

namespace ExAgent.Graph

open Lib Prog

section

variable {D : Deployment} {rs : List NodeRun} {config : Config} {svc : Services} {w : World}
    {s s' : SessionState}
  {wf wf' : WorkflowState} {n m : Node} {next : Option Node} {I : World → Prop}

/-! ## Proposing a workflow -/

/-- `search_workflows` sets the candidates and changes nothing else. -/
theorem searchWorkflows_spec : Triple I (searchWorkflows svc wf) (fun wf' w =>
    (∃ candidates, wf' = { wf with
      workflowCandidates := some candidates
      workflowProposalVersion := some 1
      executionMode := some (wf.executionMode.getD .multi)
      planningKind := some .toolPlan }) ∧ I w) I := by
  refine (Triple.ofExcept fun _ h => h).bind fun candidates => .assume fun _ => ?_
  exact .pure fun w hw => ⟨⟨candidates, rfl⟩, hw⟩

/-- `search_workflows` keeps the invariant: it runs before any plan. -/
theorem searchWorkflows_keeps : Keeps D .searchWorkflows := by
  refine keeps_of_business (fun _ wf wf' _ => ∃ candidates, wf' = { wf with
    workflowCandidates := some candidates
    workflowProposalVersion := some 1
    executionMode := some (wf.executionMode.getD .multi)
    planningKind := some .toolPlan }) rfl (fun _ _ _ _ _ => searchWorkflows_spec) ?_ ?_
  · rintro svc wf _ w ⟨candidates, rfl⟩
    rfl
  · rintro svc w s s' wf _ m - ⟨candidates, rfl⟩ hst ht hnext
    obtain ⟨hplan, hclr⟩ : NoPlan wf ∧ _ := ht.stage
    refine ht.carry (fun _ h => h) (by decide) rfl rfl rfl ?_
    have hroute := Except.ok.inj (hst.route rfl hnext)
    split at hroute
    · obtain rfl := hroute
      exact planned_of_cleared (hclr.ran hst (by decide)) (by simp)
    · obtain rfl := hroute
      exact ⟨hplan.of_eq rfl rfl (by simp), hclr.ran hst (by decide)⟩

/-- What `choose_workflow` accepts. -/
structure Choice (svc : Services) (wf : WorkflowState) (d : WorkflowSelectionDecision)
    (candidate : WorkflowCandidate) : Prop where
  resume : svc.resume = some (.workflowSelection d)
  version : d.workflowVersionId = some candidate.workflowVersionId
  proposed : candidateOf (wf.workflowCandidates.getD [])
    candidate.workflowVersionId = some candidate
  hash : d.publicPayloadHash = candidate.publicPayloadHash

/-- A choice is a selection, once its node has completed. -/
theorem Choice.selects {d : WorkflowSelectionDecision} {candidate : WorkflowCandidate}
    (h : Choice svc wf d candidate) (hwf : s.workflow = some wf) :
    Selects wf.activeTaskId candidate d (.ran .chooseWorkflow svc s s') :=
  ⟨⟨svc, s, s', wf, rfl, hwf, rfl, h.resume, h.proposed⟩, h.version, h.hash⟩

/-- The candidate of a version has that version. -/
theorem candidateOf_version {candidates : List WorkflowCandidate} {versionId : Uuid}
    {candidate : WorkflowCandidate} (h : candidateOf candidates versionId = some candidate) :
    candidate.workflowVersionId = versionId := by
  simpa using List.find?_some h

/-- The selection is checked against a candidate and the hash that was shown. -/
theorem checkSelection_spec {d : WorkflowSelectionDecision} {candidates : List WorkflowCandidate}
    {versionId : Uuid} : Triple I (checkSelection d candidates versionId)
      (fun _ w => (∃ candidate, candidateOf candidates versionId = some candidate ∧
        d.publicPayloadHash = candidate.publicPayloadHash) ∧ I w) I := by
  refine (Triple.demand fun _ h => h).bind fun candidate => .assume fun hcandidate => ?_
  refine (Triple.refuseIf fun _ h => h).bind fun _ => .assume fun hhash => ?_
  refine (Triple.refuseIf fun _ h => h).weaken (fun _ h => h) (fun _ w hw => ?_) fun _ h => h
  exact ⟨⟨candidate, hcandidate, not_not.mp hhash⟩, hw.2⟩

/-- The decision of a selection is the answer. -/
theorem workflowSelection_of {signal : Resume} {d : WorkflowSelectionDecision}
    (h : signal.workflowSelection? = some d) : signal = .workflowSelection d := by
  cases signal <;> simp_all [Resume.workflowSelection?]

/-- What `choose_workflow` makes of a decision: the workflow of a proposed candidate, or a dynamic
plan. -/
def Chosen (svc : Services) (wf : WorkflowState) (d : WorkflowSelectionDecision)
    (wf' : WorkflowState) : Prop :=
  (∃ candidate, Choice svc wf d candidate ∧ wf' = { wf with
    selectedWorkflowVersionId := some (some candidate.workflowVersionId)
    workflowInputValues := some d.inputValues
    executionMode := some .single
    planningKind := some .fixedWorkflow
    reviewAction := some (some .approve)
    riskAcknowledged := some d.riskAcknowledged }) ∨
  wf' = { wf with
    selectedWorkflowVersionId := some none
    workflowInputValues := some d.inputValues
    executionMode := some (wf.executionMode.getD .multi)
    planningKind := some .toolPlan
    reviewAction := some none
    riskAcknowledged := some d.riskAcknowledged }

/-- `choose_workflow` records a candidate that was shown, or refuses. -/
theorem chooseWorkflow_spec : Triple I (chooseWorkflow svc wf)
    (fun wf' w => (∃ d, Chosen svc wf d wf') ∧ I w) I := by
  refine (Triple.demand fun _ h => h).bind fun _ => .assume fun _ => ?_
  refine (Triple.demand fun _ h => h).bind fun candidates => .assume fun hcandidates => ?_
  refine resumeSignal_spec.bind fun raw => .assume fun hraw => ?_
  refine (Triple.demand fun _ h => h).bind fun d => .assume fun hd => ?_
  refine (Triple.refuseIf fun _ h => h).bind fun _ => .assume fun _ => ?_
  obtain rfl := workflowSelection_of hd
  cases hversion : d.workflowVersionId with
  | none => exact .pure fun w hw => ⟨⟨d, .inr rfl⟩, hw⟩
  | some versionId =>
    refine checkSelection_spec.bind fun _ => .assume fun hchecked =>
      .pure fun w hw => ⟨⟨d, .inl ?_⟩, hw⟩
    obtain ⟨candidate, hcandidate, hhash⟩ := hchecked
    obtain rfl := candidateOf_version hcandidate
    refine ⟨candidate, ⟨hraw, hversion, ?_, hhash⟩, rfl⟩
    rw [hcandidates]
    exact hcandidate

/-- `choose_workflow` keeps the invariant: it runs before any plan. -/
theorem chooseWorkflow_keeps : Keeps D .chooseWorkflow := by
  refine keeps_of_business (fun svc wf wf' _ => ∃ d, Chosen svc wf d wf') rfl
    (fun _ _ _ _ _ => chooseWorkflow_spec) ?_ ?_
  · rintro svc wf _ w ⟨d, ⟨candidate, -, rfl⟩ | rfl⟩ <;> rfl
  · rintro svc w s s' wf wf' m - ⟨d, hp⟩ hst ht hnext
    obtain ⟨hplan, hclr⟩ : NoPlan wf ∧ _ := ht.stage
    have hroute := Except.ok.inj (hst.route rfl hnext)
    rcases hp with ⟨candidate, hchoice, rfl⟩ | rfl
    · obtain rfl : .loadSelectedWorkflow = m := hroute
      refine ht.carry (fun _ h => h) (by decide) rfl rfl rfl ?_
      exact ⟨⟨rfl, rfl⟩, hclr.ran hst (by decide), candidate, d, _,
        List.mem_append_right _ (List.mem_singleton.mpr rfl), hchoice.selects hst.before, rfl,
        hchoice.proposed, rfl⟩
    · obtain rfl : .buildPlan = m := hroute
      refine ht.carry (fun _ h => h) (by decide) rfl rfl rfl ?_
      exact planned_of_cleared (hclr.ran hst (by decide)) (by simp)

/-! ## Revisions -/

/-- Persisting the plan of the next node. -/
theorem persist_keeps {plan : PlanDraft} (hwf : s.workflow = some wf) (hpend : Pending wf plan n) :
    Triple (fun w => Inv D rs w s (some n)) (persist D svc wf plan)
      (fun p w => (wf.executionMode = some plan.executionMode ∧ ∃ r, NextRevision w wf p r) ∧
        Inv D rs w s (some n)) fun w => Inv D rs w s (some n) := by
  refine persist_spec fun w row revisions r hw hins htask hnumber hpayload hlaw => ?_
  exact hw.withRevision hwf hins htask hnumber (hpayload.symm ▸ hpend) hlaw

/-- `load_selected_workflow` keeps the invariant: the plan it stores matches the revision it points
to. -/
theorem loadSelectedWorkflow_keeps : Keeps D .loadSelectedWorkflow := by
  refine keeps_of_business (fun _ wf wf' w => ∃ candidate plan p r,
    wf.selectedWorkflowVersionId = some (some candidate.workflowVersionId) ∧
    candidateOf (wf.workflowCandidates.getD []) candidate.workflowVersionId = some candidate ∧
    NextRevision w wf p r ∧ wf' = wf.withPersistedPlan plan p) rfl ?_ ?_ ?_
  · intro rs svc s wf hwf
    -- The version that was chosen is bound and persisted as the next revision.
    have hload : Triple (fun w => Inv D rs w s (some .loadSelectedWorkflow)) (loadSelected D svc wf)
        (fun out w => (∃ candidate r,
          wf.selectedWorkflowVersionId = some (some candidate.workflowVersionId) ∧
          candidateOf (wf.workflowCandidates.getD []) candidate.workflowVersionId = some candidate ∧
          NextRevision w wf out.2 r) ∧ Inv D rs w s (some .loadSelectedWorkflow))
        fun w => Inv D rs w s (some .loadSelectedWorkflow) := by
      refine (Triple.demand fun _ h => h).bind fun selected => .assume fun hselected => ?_
      refine (Triple.demand fun _ h => h).bind fun versionId => .assume fun hversion => ?_
      refine (Triple.demand fun _ h => h).bind fun candidate => .assume fun hcandidate => ?_
      refine (Triple.ofExcept fun _ h => h).bind fun version => .assume fun _ => ?_
      refine (Triple.refuseIf fun _ h => h).bind fun _ => .assume fun _ => ?_
      refine (Triple.ofExcept fun _ h => h).bind fun bound => .assume fun _ => ?_
      refine (persist_keeps (n := .loadSelectedWorkflow) hwf trivial).bind fun p =>
        .pure fun w hw => ?_
      obtain rfl := candidateOf_version hcandidate
      obtain ⟨⟨-, r, hr⟩, hw⟩ := hw
      exact ⟨⟨candidate, r, hselected.trans (congrArg some hversion), hcandidate, hr⟩, hw⟩
    refine hload.bind fun out => .pure fun w hw => ?_
    obtain ⟨⟨candidate, r, hselected, hcandidate, hr⟩, hw⟩ := hw
    exact ⟨⟨candidate, out.1, out.2, r, hselected, hcandidate, hr, rfl⟩, hw⟩
  · rintro svc wf _ w ⟨candidate, plan, p, r, -, -, -, rfl⟩
    rfl
  · rintro svc w s s' wf _ m - ⟨candidate, plan, p, r, hselected, hcandidate, hr, rfl⟩ hst ht hnext
    obtain rfl : .reviewCompiledCodeRisk = m := Option.some.inj (edge_of_successor rfl hnext)
    obtain ⟨⟨hkind, hmode⟩, hclr, candidate', d, e, he, hsel, hid, hproposed, hack⟩ := ht.stage
    refine ht.persisted (by decide) hr rfl rfl rfl ?_
    -- The candidate is the one that the user has agreed to.
    obtain rfl : candidate = candidate' := by
      have hids := Option.some.inj (Option.some.inj (hselected.symm.trans hid))
      rw [hids] at hcandidate
      exact Option.some.inj (hcandidate.symm.trans hproposed)
    refine ⟨hclr.ran hst (by decide), fun _ => hmode,
      ⟨p, r, rfl, hr.stored, fun h => absurd hkind h⟩, fun _ _ => ?_⟩
    exact ⟨p, candidate, d, e, _, rfl, pair_sublist_concat he _, hsel,
      ⟨svc, s, s', wf, _, rfl, hst.before, hst.after, rfl, hid, hproposed, rfl⟩, hack⟩

/-- `build_plan` keeps the invariant: its draft is not stored yet. -/
theorem buildPlan_keeps : Keeps D .buildPlan := by
  refine keeps_of_business (fun _ wf wf' _ => ∃ plan : PlanDraft,
    wf' = { wf with phase := .planning, plan := some plan }) rfl ?_ ?_ ?_
  · intro rs svc s wf _
    refine (updateStatus_spec Inv.quietClosed _ _).bind fun _ => ?_
    refine (Triple.demand fun _ h => h).bind fun _ => .assume fun _ => ?_
    refine (Triple.demand fun _ h => h).bind fun _ => .assume fun _ => ?_
    refine (Triple.demand fun _ h => h).bind fun _ => .assume fun _ => ?_
    refine (Triple.refuseIf fun _ h => h).bind fun _ => .assume fun _ => ?_
    refine (Triple.ofExcept fun _ h => h).bind fun plan => .assume fun _ => ?_
    exact .pure fun w hw => ⟨⟨plan, rfl⟩, hw⟩
  · rintro svc wf _ w ⟨plan, rfl⟩
    rfl
  · rintro svc w s s' wf _ m - ⟨plan, rfl⟩ hst ht hnext
    obtain rfl : .compileAndPersistPlan = m := Option.some.inj (edge_of_successor rfl hnext)
    obtain ⟨hclr, hsingle, hrevised⟩ := ht.stage
    exact ht.carry (fun _ h => h) (by decide) rfl rfl rfl
      ⟨hclr.ran hst (by decide), hsingle, hrevised⟩

/-- `compile_and_persist_plan` keeps the invariant: the plan it stores matches the revision. -/
theorem compileAndPersistPlan_keeps : Keeps D .compileAndPersistPlan := by
  refine keeps_of_business (fun _ wf wf' w => ∃ plan p r, wf.plan = some plan ∧
    NextRevision w wf p r ∧ wf' = wf.withPersistedPlan plan p) rfl ?_ ?_ ?_
  · intro rs svc s wf hwf
    refine (Triple.demand fun _ h => h).bind fun plan => .assume fun hplan => ?_
    refine (persist_keeps (n := .compileAndPersistPlan) hwf hplan).bind fun p =>
      .pure fun w hw => ?_
    obtain ⟨⟨-, r, hr⟩, hw⟩ := hw
    exact ⟨⟨plan, p, r, hplan, hr, rfl⟩, hw⟩
  · rintro svc wf _ w ⟨plan, p, r, -, -, rfl⟩
    rfl
  · rintro svc w s s' wf _ m - ⟨plan, p, r, hplan, hr, rfl⟩ hst ht hnext
    obtain rfl : .reviewCompiledCodeRisk = m := Option.some.inj (edge_of_successor rfl hnext)
    obtain ⟨hclr, hsingle, hrevised⟩ := ht.stage
    refine ht.persisted (by decide) hr rfl rfl rfl ?_
    -- The revision is ahead of the state, so its payload is the plan in the state.
    have hpayload : wf.plan = some r.publicPayload := by
      rcases ht.bound p.planRevisionId r hr.stored hr.task with hle | ⟨-, hpending⟩
      · exact absurd (hr.number.symm.trans_le hle) (Nat.not_succ_le_self _)
      · exact hpending
    exact ⟨hclr.ran hst (by decide), hsingle,
      ⟨p, r, rfl, hr.stored, fun _ => hplan.symm.trans hpayload⟩,
      fun hfix happ => absurd happ (hrevised hfix)⟩

/-! ## The review of compiled code -/

/-- Where `route_code_risk` leads. -/
theorem routeCodeRisk_cases (h : routeCodeRisk wf = .ok m) :
    ∃ review, wf.codeRisk = some review ∧
      ((review.level = .critical ∧ m = .commitBlocked) ∨
        (review.level ≠ .critical ∧ (m = .reviewPlan ∨
          (wf.planningKind = some .fixedWorkflow ∧
            ¬(review.level = .high ∧ wf.riskAcknowledged.getD false = false) ∧
            m = .verifyApproval)))) := by
  unfold routeCodeRisk at h
  cases hr : wf.codeRisk with
  | none =>
    rw [hr] at h
    exact absurd h (by simp [routeKey, bind, Except.bind])
  | some review =>
    rw [hr] at h
    refine ⟨review, rfl, ?_⟩
    simp only [routeKey, bind, Except.bind, pure, Except.pure] at h
    by_cases hc : review.level = .critical
    · rw [if_pos hc] at h
      exact .inl ⟨hc, (Except.ok.inj h).symm⟩
    · rw [if_neg hc] at h
      refine .inr ⟨hc, ?_⟩
      cases hk : wf.planningKind with
      | none =>
        rw [hk] at h
        exact absurd h (by simp)
      | some kind =>
        rw [hk] at h
        dsimp only at h
        split_ifs at h with hfix hhigh
        · exact .inl (Except.ok.inj h).symm
        · exact .inr ⟨congrArg some hfix, hhigh, (Except.ok.inj h).symm⟩
        · exact .inl (Except.ok.inj h).symm

/-- A node that decides to leave an execution open. -/
theorem closing_of_leavesOpen (hst : SameTask s s' wf wf') (hx : wf'.executionId = wf.executionId)
    (hopen : wf.executionId ≠ none → LeavesOpen D n svc wf) :
    Closing D (nodeRuns (w.logged (.ran n svc s s')).log) wf' := by
  intro x hexec
  right
  rw [hst.runs]
  refine ⟨_, List.mem_append_right _ (List.mem_singleton.mpr rfl), hopen ?_⟩
  rw [← hx, hexec]
  simp

/-- A node that leaves the plan alone keeps it matching. -/
theorem Matching.ran (h : Matching w wf) (hp : wf'.persisted = wf.persisted)
    (hkind : wf'.planningKind = wf.planningKind) (hplan : wf'.plan = wf.plan) :
    Matching (w.logged (.ran n svc s s')) wf' := by
  obtain ⟨p, r, hpersisted, hr, hpayload⟩ := h
  refine ⟨p, r, hp.trans hpersisted, hr, fun hk => ?_⟩
  rw [hplan]
  exact hpayload (hkind ▸ hk)

/-- The review that has just been made is the last one of its revision. -/
theorem reviewed_of_review {p : PersistedPlan} {r : Revision} {review : RiskReview}
    (hinv : Inv D rs w s next) (hst : SameTask s s' wf wf') (hreview : svc.codeReview = .ok review)
    (hp : wf.persisted = some p) (hr : w.revisions.get p.planRevisionId = some r)
    (hp' : wf'.persisted = wf.persisted) (hrisk : wf'.codeRisk = some review)
    (hlevel : review.level ≠ .critical) :
    Reviewed (w.logged (.ran .reviewCompiledCodeRisk svc s s')) wf' p r review := by
  have hid : wf.persisted.map PersistedPlan.planRevisionId = some p.planRevisionId := by
    rw [hp]
    rfl
  refine ⟨hp'.trans hp, hr, hrisk, ?_, hlevel, _, pair_sublist_concat (hinv.revisions _ r hr).2 _,
    svc, s, s', wf, rfl, hst.before, hid, hreview⟩
  rw [hst.runs]
  exact lastSome_concat_some _ (by simp [NodeRun.codeReview?, hid, hreview])

/-- `review_compiled_code_risk` sets the review and changes nothing else. -/
theorem reviewCompiledCodeRisk_spec : Triple I (reviewCompiledCodeRisk svc wf) (fun wf' w =>
    (∃ review, svc.codeReview = .ok review ∧ wf' = { wf with codeRisk := some review }) ∧ I w)
    I := by
  have hreview : Triple I (reviewCompiledCode svc wf)
      (fun review w => svc.codeReview = .ok review ∧ I w) I :=
    (Triple.demand fun _ h => h).bind fun _ => .assume fun _ => .ofExcept fun _ h => h
  exact hreview.bind fun review => .assume fun hok => .pure fun w hw => ⟨⟨review, hok, rfl⟩, hw⟩

/-- `review_compiled_code_risk` keeps the invariant: the review it sets is the last one of the
log. -/
theorem reviewCompiledCodeRisk_keeps : Keeps D .reviewCompiledCodeRisk := by
  refine keeps_of_business (fun svc wf wf' _ => ∃ review, svc.codeReview = .ok review ∧
    wf' = { wf with codeRisk := some review }) rfl
    (fun _ _ _ _ _ => reviewCompiledCodeRisk_spec) ?_ ?_
  · rintro svc wf _ w ⟨review, -, rfl⟩
    rfl
  · rintro svc w s s' wf _ m hinv ⟨review, hreview, rfl⟩ hst ht hnext
    obtain ⟨hclr, hsingle, hmatch, hload⟩ := ht.stage
    refine ht.carry (fun _ h => h) (by decide) rfl rfl rfl ?_
    have hmatch' : Matching (w.logged (.ran .reviewCompiledCodeRisk svc s s'))
        { wf with codeRisk := some review } := hmatch.ran rfl rfl rfl
    obtain ⟨p, r, hp, hr, -⟩ := hmatch
    obtain ⟨review₀, hr₀, hcases⟩ := routeCodeRisk_cases (hst.route rfl hnext)
    obtain rfl : review = review₀ := Option.some.inj hr₀
    rcases hcases with ⟨hcrit, rfl⟩ | ⟨hlevel, hm⟩
    · exact closing_of_leavesOpen hst rfl fun hx => ⟨hx, by rw [hreview]; exact congrArg some hcrit⟩
    · have hrev := reviewed_of_review hinv hst hreview hp hr rfl rfl hlevel
      rcases hm with rfl | ⟨hfix, hack, rfl⟩
      · exact ⟨hclr.ran hst (by decide), hsingle, hmatch', p, r, review, hrev⟩
      · refine ⟨hclr.ran hst (by decide), hsingle, hmatch', p, r, review, hrev,
          fun happ => .inr ⟨hfix, ?_⟩⟩
        obtain ⟨p', candidate, d, chosen, loaded, hp', hsub, hsel, hloads, hd⟩ := hload hfix happ
        obtain rfl : p = p' := Option.some.inj (hp.symm.trans hp')
        refine ⟨candidate, d, chosen, loaded, sublist_concat hsub _, hsel, hloads, fun hhigh => ?_⟩
        -- The acknowledgement in the state is that of the selection.
        have hyes : wf.riskAcknowledged.getD false ≠ false := fun h => hack ⟨hhigh, h⟩
        rw [hd] at hyes
        simpa using hyes

/-! ## The review of a plan -/

/-- The decision of a plan review is the answer. -/
theorem planReview_of {signal : Resume} {d : PlanReviewDecision}
    (h : signal.planReview? = some d) : signal = .planReview d := by
  cases signal <;> simp_all [Resume.planReview?]

/-- What `review_plan` accepts. -/
structure Verdict (svc : Services) (wf : WorkflowState) (d : PlanReviewDecision) : Prop where
  resume : svc.resume = some (.planReview d)
  revision : ∃ p, wf.persisted = some p ∧ d.planRevisionId = p.planRevisionId ∧
    d.planRevisionNumber = p.planRevisionNumber ∧ d.publicPayloadHash = p.publicPayloadHash
  acknowledged : ∃ risk, wf.codeRisk = some risk ∧
    (d.decision = .approve → risk.level = .high → d.riskAcknowledged = true)

/-- An accepted approval is the last one of its Task. -/
theorem Verdict.approved {p : PersistedPlan} {r : Revision} {review : RiskReview}
    {d : PlanReviewDecision} (h : Verdict svc wf d) (hinv : Inv D rs w s next)
    (hst : SameTask s s' wf wf') (hrev : Reviewed w wf p r review) (happ : d.decision = .approve) :
    ApprovedByReview (w.logged (.ran .reviewPlan svc s s')).log wf' p review := by
  obtain ⟨p', hp', hid, hnumber, hhash⟩ := h.revision
  obtain rfl : p = p' := Option.some.inj (hrev.persisted.symm.trans hp')
  obtain ⟨risk, hrisk, hack⟩ := h.acknowledged
  obtain rfl : review = risk := Option.some.inj (hrev.codeRisk.symm.trans hrisk)
  rw [ApprovedByReview, hst.task, hst.runs]
  refine ⟨⟨r, svc, s, s', wf, d, ?_, hst.before, rfl, h.resume, happ, hid, hnumber,
    hhash, hack happ⟩, d, ?_, hid⟩
  · exact pair_sublist_concat (hinv.revisions _ r hrev.stored).2 _
  · exact lastSome_concat_some _ (by simp [NodeRun.approval?, h.resume, happ])

/-- Where `route_plan_review` leads. -/
theorem routePlanReview_cases {decision : PlanDecisionType}
    (haction : wf.reviewAction = some (some decision)) (h : routePlanReview wf = .ok m) :
    (decision = .revise ∧ m = .buildPlan) ∨ (decision = .reject ∧ m = .commitRejected) ∨
      (decision = .approve ∧ m = .verifyApproval) := by
  unfold routePlanReview at h
  rw [haction] at h
  cases decision with
  | approve => exact .inr (.inr ⟨rfl, (Except.ok.inj h).symm⟩)
  | revise => exact .inl ⟨rfl, (Except.ok.inj h).symm⟩
  | reject => exact .inr (.inl ⟨rfl, (Except.ok.inj h).symm⟩)

/-- `review_plan` records one decision of the user about the revision shown. -/
theorem reviewPlan_spec : Triple I (reviewPlan svc wf) (fun wf' w =>
    (∃ d : PlanReviewDecision, Verdict svc wf d ∧ wf' = { wf with
      reviewAction := some (some d.decision)
      revisionFeedback := some (d.feedback.getD "")
      riskAcknowledged := some d.riskAcknowledged }) ∧ I w) I := by
  refine (Triple.demand fun _ h => h).bind fun p => .assume fun hp => ?_
  refine (Triple.demand fun _ h => h).bind fun _ => .assume fun _ => ?_
  refine (Triple.demand fun _ h => h).bind fun risk => .assume fun hrisk => ?_
  refine resumeSignal_spec.bind fun raw => .assume fun hraw => ?_
  refine (Triple.demand fun _ h => h).bind fun d => .assume fun hd => ?_
  refine (Triple.refuseIf fun _ h => h).bind fun _ => .assume fun hid => ?_
  refine (Triple.refuseIf fun _ h => h).bind fun _ => .assume fun hnumber => ?_
  refine (Triple.refuseIf fun _ h => h).bind fun _ => .assume fun hhash => ?_
  refine (Triple.refuseIf fun _ h => h).bind fun _ => .assume fun hack => ?_
  obtain rfl := planReview_of hd
  refine .pure fun w hw => ⟨⟨d, ⟨hraw, ⟨p, hp, not_not.mp hid, not_not.mp hnumber,
    not_not.mp hhash⟩, risk, hrisk, fun happ hhigh => ?_⟩, rfl⟩, hw⟩
  by_contra hno
  exact hack ⟨happ, hhigh, by simpa using hno⟩

/-- `review_plan` keeps the invariant: an approval is of the stored revision. -/
theorem reviewPlan_keeps : Keeps D .reviewPlan := by
  refine keeps_of_business (fun svc wf wf' _ => ∃ d : PlanReviewDecision, Verdict svc wf d ∧
    wf' = { wf with
      reviewAction := some (some d.decision)
      revisionFeedback := some (d.feedback.getD "")
      riskAcknowledged := some d.riskAcknowledged }) rfl (fun _ _ _ _ _ => reviewPlan_spec) ?_ ?_
  · rintro svc wf _ w ⟨d, -, rfl⟩
    rfl
  · rintro svc w s s' wf _ m hinv ⟨d, hverdict, rfl⟩ hst ht hnext
    obtain ⟨hclr, hsingle, hmatch, p, r, review, hrev⟩ := ht.stage
    refine ht.carry (fun _ h => h) (by decide) rfl rfl rfl ?_
    rcases routePlanReview_cases rfl (hst.route rfl hnext) with
      ⟨hd, rfl⟩ | ⟨hd, rfl⟩ | ⟨hd, rfl⟩
    · refine ⟨hclr.ran hst (by decide), hsingle, fun _ h => ?_⟩
      have hdec : d.decision = .approve := Option.some.inj (Option.some.inj h)
      exact absurd (hd.symm.trans hdec) (by decide)
    · exact closing_of_leavesOpen hst rfl fun hx =>
        ⟨hx, by rw [hverdict.resume]; exact congrArg some hd⟩
    · exact ⟨hclr.ran hst (by decide), hsingle, hmatch.ran rfl rfl rfl, p, r, review,
        hrev.ran hst (by decide) rfl rfl, fun _ => .inl (hverdict.approved hinv hst hrev hd)⟩

/-- `verify_approval` keeps the invariant: it goes on only with the hashes that were approved. -/
theorem verifyApproval_keeps : Keeps D .verifyApproval := by
  refine keeps_of_business (fun _ wf wf' _ => wf.reviewAction = some (some .approve) ∧
    wf' = { wf with phase := .queuedForExecution }) rfl ?_ ?_ ?_
  · intro rs svc s wf _
    have hverify : Triple (fun w => Inv D rs w s (some .verifyApproval)) (verifyApprovalAndLock wf)
        (fun _ w => wf.reviewAction = some (some .approve) ∧ Inv D rs w s (some .verifyApproval))
        fun w => Inv D rs w s (some .verifyApproval) := by
      refine (Triple.refuseIf fun _ h => h).bind fun _ => .assume fun happ => ?_
      refine (Triple.demand fun _ h => h).bind fun _ => .assume fun _ => ?_
      refine validatePlanExecutionMode_spec.bind fun _ => .assume fun _ => ?_
      refine (lockSession_spec Inv.quietClosed _).bind fun _ => ?_
      exact (updateStatus_spec Inv.quietClosed _ _).weaken (fun _ h => h)
        (fun _ _ h => ⟨not_not.mp happ, h⟩) fun _ h => h
    exact hverify.bind fun _ => .assume fun happ => .pure fun w hw => ⟨⟨happ, rfl⟩, hw⟩
  · rintro svc wf _ w ⟨-, rfl⟩
    rfl
  · rintro svc w s s' wf _ m - ⟨haction, rfl⟩ hst ht hnext
    obtain ⟨hclr, hsingle, hmatch, p, r, review, hrev, happ⟩ := ht.stage
    refine ht.carry (fun _ h => h) (by decide) rfl rfl rfl ?_
    have happ := happ haction
    have hroute := Except.ok.inj (hst.route rfl hnext)
    split at hroute
    · -- A Task that is with the Executor goes on in MULTI mode, so its plan is no fixed workflow.
      obtain rfl := hroute
      rename_i hx
      refine ⟨⟨hclr.ran hst (by decide), hsingle, Option.isSome_iff_ne_none.mp hx⟩,
        .inr ⟨?_, fun hmulti => ?_⟩⟩
      · rw [hst.runs]
        exact lastNode_concat _ _
      · have hkind : wf.planningKind ≠ some .fixedWorkflow := fun h =>
          absurd ((hsingle h).symm.trans hmulti) (by decide)
        refine ⟨hmatch.ran rfl rfl rfl, hkind, p, r, review, hrev.ran hst (by decide) rfl rfl, ?_⟩
        rcases happ with h | ⟨hfix, -⟩
        · exact h.ran hst (by decide)
        · exact absurd hfix hkind
    · obtain rfl := hroute
      rename_i hx
      exact ⟨hclr.ran hst (by decide), hsingle, by simpa using hx, p, r, review,
        hrev.ran hst (by decide) rfl rfl, happ.ran hst (by decide) rfl⟩

end

end ExAgent.Graph
