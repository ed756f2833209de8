import ExAgent.Graph.Frame
import ExAgent.Graph.Guarantees

/-!
# Routes and the guards of nodes

The routes of the graph and the nodes they lead to decide from different keys: `route_code_risk`
looks at the kind of planning and at the level of a risk, `verify_approval` at the user's decision;
`route_request_risk` looks at the level of the request's risk, and the planner at the action its
review recommends. The two agree in every run, but for two cases. A fixed workflow keeps its kind of
planning when the user sends it back, so the plan that replaces it goes past the review it was sent
back for. And a review that recommends to BLOCK a request, at a level below CRITICAL, goes on to the
planner.

`RoutesAgree` is the agreement in one state. It holds in every run that avoids the two cases, and
the last section has a run into each of them.
-/

namespace ExAgent.Graph

open Lib Prog

/-! ## Decisions -/

/-- The decision of a plan review of a Task. -/
def NodeRun.decision? (r : NodeRun) (taskId : Uuid) : Option PlanDecisionType :=
  if r.node = .reviewPlan ∧ r.before.activeTaskId = taskId then
    (r.svc.resume.bind Resume.planReview?).map PlanReviewDecision.decision
  else none

/-- What the user decided at the last `review_plan` of a Task. -/
def lastDecision (rs : List NodeRun) (taskId : Uuid) : Option PlanDecisionType :=
  lastSome (fun r => r.decision? taskId) rs

/-- Only a plan review decides. -/
theorem lastDecision_concat {rs : List NodeRun} {r : NodeRun} (hr : r.node ≠ .reviewPlan)
    (taskId : Uuid) : lastDecision (rs ++ [r]) taskId = lastDecision rs taskId :=
  lastSome_concat_none rs (by simp [NodeRun.decision?, hr])

/-- `verify_approval` finds an approval that was given for the revision in the state, or with the
choice of the workflow it was compiled from, and the last decision on a plan of the Task is that
approval; `build_plan` finds a request whose review does not recommend to block it. Neither guard
raises. -/
structure RoutesAgree (D : Deployment) (g : GraphState) : Prop where
  approval : g.next = some .verifyApproval → ∃ wf p review, g.values.workflow = some wf ∧
    wf.persisted = some p ∧ wf.reviewAction = some (some .approve) ∧
    (PlanApproval g.world.log wf.activeTaskId p review ∨
      WorkflowApproval g.world.log wf.activeTaskId p review) ∧
    (∀ decision, lastDecision (nodeRuns g.world.log) wf.activeTaskId = some decision →
      decision = .approve) ∧
    (verifyApprovalAndLock wf g.world).result ≠ .error (.valueError "Plan approval is required")
  prerequisite : g.next = some .buildPlan → ∃ wf review, g.values.workflow = some wf ∧
    wf.requestRisk = some review ∧ review.recommendedAction ≠ .block ∧
    (checkRiskPrerequisite review g.world).result = .ok ()

/-! ## The two cases -/

/-- The compiled code of a fixed workflow that was sent back is reviewed as less than CRITICAL, and
not as a HIGH risk that is still to be acknowledged: `route_code_risk` takes it for the workflow
that was chosen. -/
def SkipsReview (n : Node) (svc : Services) (wf : WorkflowState) : Prop :=
  n = .reviewCompiledCodeRisk ∧ wf.planningKind = some .fixedWorkflow ∧
    wf.reviewAction = some (some .revise) ∧ ∃ review ∈ svc.codeReview.toOption,
      review.level ≠ .critical ∧ ¬(review.level = .high ∧ wf.riskAcknowledged.getD false = false)

/-- The review of a request recommends to block it at a level that does not. -/
def AllowsBlocked (n : Node) (svc : Services) : Prop :=
  n = .reviewRequestRisk ∧ ∃ review ∈ svc.requestReview.toOption,
    review.recommendedAction = .block ∧ review.level ≠ .critical

/-- A node at which a route and a guard come to disagree. -/
def Disagrees (n : Node) (svc : Services) (wf : WorkflowState) : Prop :=
  SkipsReview n svc wf ∨ AllowsBlocked n svc

instance (n : Node) (svc : Services) (wf : WorkflowState) : Decidable (SkipsReview n svc wf) :=
  inferInstanceAs (Decidable (_ ∧ _))

instance (n : Node) (svc : Services) : Decidable (AllowsBlocked n svc) :=
  inferInstanceAs (Decidable (_ ∧ _))

instance (n : Node) (svc : Services) (wf : WorkflowState) : Decidable (Disagrees n svc wf) :=
  inferInstanceAs (Decidable (_ ∨ _))

/-! ## The invariant -/

/-- The nodes behind the review of a request's risk. -/
def Node.isPastRisk : Node → Bool
  | .beginTask | .hydrateTurn | .classifyIntent | .clarifyRequest | .answerGeneral
  | .answerDataQuestion | .commitAnswer | .chooseExecutionMode | .reviewRequestRisk => false
  | _ => true

/-- What routes and guards have in common before a node. -/
structure Agreeing (rs : List NodeRun) (wf : WorkflowState) (n : Node) : Prop where
  risk : n.isPastRisk = true →
    ∃ review, wf.requestRisk = some review ∧ review.recommendedAction ≠ .block
  approved : n = .verifyApproval → wf.reviewAction = some (some .approve)
  /-- A fixed workflow was approved with its choice, or sent back. -/
  fixed : wf.planningKind = some .fixedWorkflow →
    wf.reviewAction = some (some .approve) ∨ wf.reviewAction = some (some .revise)
  /-- The decision in the state is the last one. -/
  decided : ∀ decision, lastDecision rs wf.activeTaskId = some decision →
    wf.persisted ≠ none ∧ wf.reviewAction = some (some decision)

section

variable {D : Deployment} {rs : List NodeRun} {config : Config} {svc : Services} {w w' : World}
  {s s' : SessionState} {wf wf' : WorkflowState} {n m : Node} {next : Option Node}

/-- The review that a route to a calm node leaves behind. -/
theorem risk_of_route (h : Agreeing rs wf n) (hu : Update svc n wf wf') (hd : ¬AllowsBlocked n svc)
    (hst : SameTask s s' wf wf') (hnext : successor n s' = .ok (some m)) (hm : m.isCalm = true)
    (hpast : m.isPastRisk = true) :
    ∃ review, wf'.requestRisk = some review ∧ review.recommendedAction ≠ .block := by
  by_cases hreview : n = .reviewRequestRisk
  · subst hreview
    obtain ⟨review, hok, hrisk⟩ := hu.own
    refine ⟨review, hrisk, fun hblock => hd ⟨rfl, review, by rw [hok]; rfl, hblock, ?_⟩⟩
    obtain ⟨review₀, hr₀, hcases⟩ := routeRequestRisk_cases (hst.route rfl hnext)
    obtain rfl : review = review₀ := Option.some.inj (hrisk.symm.trans hr₀)
    rcases hcases with ⟨-, rfl⟩ | ⟨hhigh, -, -⟩ | ⟨hlevel, -, -⟩
    · exact absurd hm (by decide)
    · rw [hhigh]
      decide
    · exact hlevel
  by_cases hconfirm : n = .confirmRequestRisk
  · subst hconfirm
    rcases hu.own with hsame | ⟨review, hcritical⟩
    · rw [hsame]
      exact h.risk rfl
    · -- A risk that is not confirmed ends the Task.
      obtain ⟨review₀, hr₀, hcases⟩ := routeRequestRisk_cases (hst.route rfl hnext)
      obtain rfl := Option.some.inj (hcritical.symm.trans hr₀)
      rcases hcases with ⟨-, rfl⟩ | ⟨hhigh, -, -⟩ | ⟨hlevel, -, -⟩
      · exact absurd hm (by decide)
      · exact absurd hhigh (by simp)
      · exact absurd rfl hlevel
  · rw [hu.requestRisk hreview hconfirm]
    refine h.risk ?_
    -- Only the review of the request leads past it.
    have hmem := mem_successors hnext
    cases n <;> first
      | rfl
      | exact absurd rfl hreview
      | (revert hmem hpast; cases m <;> decide)

/-- The decision that a route to `verify_approval` leaves behind. -/
theorem approved_of_route (h : Agreeing rs wf n) (hu : Update svc n wf wf')
    (hd : ¬SkipsReview n svc wf) (hst : SameTask s s' wf wf')
    (hnext : successor n s' = .ok (some .verifyApproval)) :
    wf'.reviewAction = some (some .approve) := by
  have hmem := mem_successors hnext
  have hn : n = .reviewPlan ∨ n = .reviewCompiledCodeRisk := by
    cases n <;> first | exact .inl rfl | exact .inr rfl | exact absurd hmem (by decide)
  rcases hn with rfl | rfl
  · obtain ⟨-, d, -, haction⟩ := hu.own
    rcases routePlanReview_cases haction (hst.route rfl hnext) with
      ⟨-, hm⟩ | ⟨-, hm⟩ | ⟨hd, -⟩
    · exact absurd hm (by decide)
    · exact absurd hm (by decide)
    · rw [haction, hd]
  · obtain ⟨hkind, hack, review, hok, hrisk⟩ := hu.own
    obtain ⟨review₀, hr₀, hcases⟩ := routeCodeRisk_cases (hst.route rfl hnext)
    obtain rfl : review = review₀ := Option.some.inj (hrisk.symm.trans hr₀)
    rcases hcases with ⟨-, hm⟩ | ⟨hlevel, hm | ⟨hfix, hhigh, -⟩⟩
    · exact absurd hm (by decide)
    · exact absurd hm (by decide)
    · rw [hu.reviewAction (by decide) (by decide)]
      rw [hkind] at hfix
      rw [hack] at hhigh
      rcases h.fixed hfix with happrove | hrevise
      · exact happrove
      · exact absurd ⟨rfl, hfix, hrevise, review, by rw [hok]; rfl, hlevel, hhigh⟩ hd

/-- The decision on a fixed workflow after a node. -/
theorem fixed_of_update (h : Agreeing rs wf n) (hu : Update svc n wf wf')
    (hnone : n = .chooseWorkflow → wf.planningKind ≠ some .fixedWorkflow)
    (hst : SameTask s s' wf wf') (hnext : successor n s' = .ok (some m)) (hm : m.isCalm = true)
    (hfix : wf'.planningKind = some .fixedWorkflow) :
    wf'.reviewAction = some (some .approve) ∨ wf'.reviewAction = some (some .revise) := by
  rcases hu.planningKind hfix with hold | ⟨-, happrove⟩
  · by_cases hplan : n = .reviewPlan
    · subst hplan
      obtain ⟨-, d, -, haction⟩ := hu.own
      rw [haction]
      rcases routePlanReview_cases haction (hst.route rfl hnext) with
        ⟨hd, -⟩ | ⟨-, rfl⟩ | ⟨hd, -⟩
      · exact .inr (by rw [hd])
      · exact absurd hm (by decide)
      · exact .inl (by rw [hd])
    · rw [hu.reviewAction (fun hn => hnone hn hold) hplan]
      exact h.fixed hold
  · exact .inl happrove

/-- The last decision after a node. -/
theorem decided_of_update (h : Agreeing rs wf n) (hu : Update svc n wf wf')
    (hnone : n = .chooseWorkflow → wf.persisted = none) (decision : PlanDecisionType)
    (hlast : lastDecision (rs ++ [⟨n, svc, wf, wf'⟩]) wf'.activeTaskId = some decision) :
    wf'.persisted ≠ none ∧ wf'.reviewAction = some (some decision) := by
  by_cases hplan : n = .reviewPlan
  · subst hplan
    obtain ⟨hp, d, hresume, haction⟩ := hu.own
    have hdecision : lastDecision (rs ++ [⟨.reviewPlan, svc, wf, wf'⟩]) wf'.activeTaskId =
        some d.decision :=
      lastSome_concat_some rs (by simp [NodeRun.decision?, hu.task, hresume, Resume.planReview?])
    rw [← Option.some.inj (hdecision.symm.trans hlast)]
    exact ⟨hu.persisted hp, haction⟩
  · rw [lastDecision_concat hplan, hu.task] at hlast
    obtain ⟨hp, haction⟩ := h.decided decision hlast
    refine ⟨hu.persisted hp, ?_⟩
    rw [hu.reviewAction (fun hn => hp (hnone hn)) hplan]
    exact haction

/-- Routes and guards agree before the node that is next. -/
def Agrees (g : GraphState) : Prop :=
  ∀ n wf, g.next = some n → n.isCalm = true → g.values.workflow = some wf →
    Agreeing (nodeRuns g.world.log) wf n

/-- A node that completes has followed an edge. -/
theorem successor_of_superstep {r : SessionState × Option Node}
    (hok : (superstep D config svc n s w).result = .ok r) : successor n r.1 = .ok r.2 := by
  have hsuper : Triple (fun _ => True) (superstep D config svc n s)
      (fun r _ => successor n r.1 = .ok r.2) fun _ => True := by
    refine (Triple.trivial _).bind fun s' => ?_
    refine (Triple.ofExcept fun _ h => h).bind fun next => .assume fun hnext => ?_
    exact .pure fun _ _ => hnext
  exact hsuper.returns w trivial r hok

/-- A Task that begins has decided nothing. -/
theorem Agreeing.begin {turn : TaskTurn}
    (hruns : ∀ r ∈ rs, r.before.activeTaskId ≠ turn.activeTaskId) :
    Agreeing rs (.ofTurn turn) .hydrateTurn := by
  refine ⟨fun h => absurd h (by decide), fun h => absurd h (by decide), nofun,
    fun decision hlast => ?_⟩
  have hnone : lastDecision rs turn.activeTaskId = none := by
    unfold lastDecision lastSome
    rw [List.getLast?_eq_none_iff, List.filterMap_eq_nil_iff]
    intro r hr
    simp [NodeRun.decision?, hruns r hr]
  exact absurd (hnone.symm.trans hlast) (by simp)

/-- What a calm node keeps. -/
theorem Agreeing.step (h : Agreeing rs wf n) (hinv : Inv D rs w s (some n)) (hn : n.isCalm = true)
    (hd : ¬Disagrees n svc wf) (hu : Update svc n wf wf') (hst : SameTask s s' wf wf')
    (hnext : successor n s' = .ok (some m)) (hm : m.isCalm = true) :
    Agreeing (rs ++ [⟨n, svc, wf, wf'⟩]) wf' m := by
  obtain ⟨hskip, hblock⟩ := not_or.mp hd
  -- A workflow is chosen before there is a plan.
  have hplan : n = .chooseWorkflow → NoPlan wf := by
    rintro rfl
    obtain ⟨wf₀, hwf₀, ht⟩ := hinv.task _ rfl (by decide)
    obtain rfl : wf = wf₀ := Option.some.inj (hst.before.symm.trans hwf₀)
    exact ht.stage.1
  refine ⟨risk_of_route h hu hblock hst hnext hm, ?_,
    fixed_of_update h hu (fun hn => (hplan hn).planningKind) hst hnext hm,
    decided_of_update h hu fun hn => (hplan hn).persisted⟩
  rintro rfl
  exact approved_of_route h hu hskip hst hnext

/-- A completed node keeps the agreement. -/
theorem Agrees.run {g : GraphState} {r : SessionState × Option Node} (h : Agrees g)
    (htells : D.TellsRevision) (hinv : Inv D rs g.world g.values (some n)) (hn : g.next = some n)
    (hd : ∀ wf, g.values.workflow = some wf → ¬Disagrees n svc wf)
    (hok : (superstep D config svc n g.values g.world).result = .ok r) :
    Agrees (g.checkpoint n svc (superstep D config svc n g.values g.world).final r.1 r.2) := by
  intro m wf' hm hcalm hwf'
  have hnext : successor n r.1 = .ok (some m) := (successor_of_superstep hok).trans (congrArg _ hm)
  have hinv' := (keeps htells n rs config svc g.values).returns _ hinv _ hok
  show Agreeing (nodeRuns ((superstep D config svc n g.values g.world).final.logged
    (.ran n svc g.values r.1)).log) wf' m
  rw [hinv'.runs]
  cases hcalmn : n.isCalm with
  | true =>
    have hb : n ≠ .beginTask := by
      rintro rfl
      exact absurd hcalmn (by decide)
    obtain ⟨wf, hwf, hx⟩ := hinv.workflow hb
    obtain ⟨⟨wf₀, hst, ⟨hu, -⟩, -⟩, -⟩ :=
      (superstep_calm hcalmn hwf hx).returns g.world (Calm.refl _ _) r hok
    obtain rfl : wf₀ = wf' := Option.some.inj (hst.after.symm.trans hwf')
    have hagree := h n wf hn hcalmn hwf
    rw [hinv.runs] at hagree
    have hrun : (Event.ran n svc g.values r.1).nodeRun? = some ⟨n, svc, wf, wf₀⟩ := by
      simp [Event.nodeRun?, hst.before, hst.after]
    rw [hrun]
    exact hagree.step hinv hcalmn (hd wf hwf) hu hst hnext hcalm
  | false =>
    have hmem := mem_successors hnext
    obtain rfl : n = .beginTask := by
      cases n <;> first
        | rfl
        | exact absurd hcalmn (by decide)
        | (revert hmem hcalm; cases m <;> decide)
    obtain rfl : Node.hydrateTurn = m := Option.some.inj (edge_of_successor rfl hnext)
    obtain ⟨⟨⟨turn, updated, hbegins, hcore⟩, -⟩, -⟩ :=
      (superstep_begin (I := fun _ => True)).returns g.world trivial r hok
    have hafter : r.1.workflow = some (.ofTurn turn) := hcore.workflow.trans hbegins.workflow
    obtain rfl : WorkflowState.ofTurn turn = wf' := Option.some.inj (hafter.symm.trans hwf')
    refine .begin fun r' hr' => ?_
    rcases List.mem_append.mp hr' with hold | hlast
    · exact (hinv.fresh _ hbegins.new).runs r' (hinv.runs.symm ▸ hold)
    · -- The Task that ended before is another one.
      cases hwf : g.values.workflow with
      | none => simp [Event.nodeRun?, hwf] at hlast
      | some wf =>
        obtain rfl : r' = ⟨.beginTask, svc, wf, .ofTurn turn⟩ := by
          simpa [Event.nodeRun?, hwf, hafter] using hlast
        intro hid
        have hbefore : wf.activeTaskId = turn.activeTaskId := hid
        exact (hinv.owner wf hwf).2.1 (hbefore ▸ hbegins.new)

/-- The agreement depends on the checkpoint and on the nodes that completed. -/
theorem Agrees.of_runs {g g' : GraphState} (h : Agrees g) (hvalues : g'.values = g.values)
    (hnext : g'.next = g.next)
    (hruns : nodeRuns g'.world.log = nodeRuns g.world.log) : Agrees g' := by
  intro n wf hn hcalm hwf
  rw [hruns]
  exact h n wf (hnext ▸ hn) hcalm (hvalues ▸ hwf)

/-- Every step that avoids the two cases keeps the agreement. -/
theorem Agrees.step {g g' : GraphState} {a : GraphAction} (h : Agrees g) (htells : D.TellsRevision)
    (hinv : Inv D rs g.world g.values g.next) (hc : Avoids Disagrees g a)
    (hstep : graphStep D g a = some g') : Agrees g' := by
  cases a with
  | accept taskId =>
    unfold graphStep at hstep
    dsimp only at hstep
    split at hstep
    · exact absurd hstep (by simp)
    · obtain rfl := Option.some.inj hstep
      exact h.of_runs rfl rfl rfl
  | start turn =>
    obtain rfl := Option.some.inj hstep
    intro n wf hn hcalm _
    obtain rfl : Node.beginTask = n := Option.some.inj hn
    exact absurd hcalm (by decide)
  | run config svc =>
    obtain ⟨n, hn, hstep⟩ := Option.map_eq_some_iff.mp hstep
    rw [hn] at hinv
    dsimp only at hstep
    split at hstep
    · rename_i after next hok
      obtain rfl := hstep
      exact h.run htells hinv hn (fun wf hwf => hc config svc n wf rfl hn hwf) hok
    · rename_i e herr
      obtain rfl := hstep
      have hinv' := (keeps htells n rs config svc g.values).raises _ hinv e herr
      exact h.of_runs rfl rfl (hinv'.runs.trans hinv.runs.symm)
  | stop config svc commits =>
    obtain ⟨n, hn, hstep⟩ := Option.bind_eq_some_iff.mp hstep
    obtain ⟨w, hw, rfl⟩ := Option.map_eq_some_iff.mp hstep
    rw [hn] at hinv
    have hinv' := (keeps htells n rs config svc g.values).stoppedAt hinv hinv hw
    exact h.of_runs rfl rfl (hinv'.runs.trans hinv.runs.symm)

/-! ## The agreement in every run -/

/-- An approved plan can be refused for other reasons only. -/
theorem verifyApprovalAndLock_raises (happrove : wf.reviewAction = some (some .approve)) :
    Raises (verifyApprovalAndLock wf) fun e => e ≠ .valueError "Plan approval is required" := by
  refine (Raises.refuseIf fun h => absurd happrove h).bind fun _ => ?_
  refine (Raises.demand nofun).bind fun plan => ?_
  have hmode : Raises (validatePlanExecutionMode wf plan)
      fun e => e ≠ .valueError "Plan approval is required" := by
    refine (Raises.demand nofun).bind fun expected => .refuseIf fun _ => ?_
    cases plan.executionMode <;> cases expected <;> decide
  refine hmode.bind fun _ => ?_
  have hlock : Raises (lockSession wf.activeTaskId)
      fun e => e ≠ .valueError "Plan approval is required" := by
    refine .transact fun w e he => ?_
    split at he
    · obtain rfl := Except.error.inj he
      nofun
    · split at he
      · split at he
        · obtain rfl := Except.error.inj he
          nofun
        · exact absurd he nofun
      · exact absurd he nofun
  refine hlock.bind fun _ => .transact fun w e he => ?_
  split at he
  · obtain rfl := Except.error.inj he
    nofun
  · exact absurd he nofun

/-- The agreement of routes and guards, in every run that avoids the two cases. -/
theorem routes_agree {g : GraphState} (htells : D.TellsRevision)
    (hg : (sessionGraph D).ReachableWhen (Avoids Disagrees) g) : RoutesAgree D g := by
  have hreach : (sessionGraph D).Reachable g := hg.reachable
  obtain ⟨rs, hinv⟩ := inv_reachable htells hreach
  have hagree : Agrees g := by
    clear hinv hreach
    induction hg with
    | start hg =>
      obtain rfl := hg
      exact fun n _ hn => absurd hn (by simp)
    | next hg hc hstep ih =>
      obtain ⟨rs, hinv⟩ := inv_reachable htells hg.reachable
      exact ih.step htells hinv hc hstep
  constructor
  · intro hnext
    obtain ⟨wf, hwf, ht⟩ := hinv.task .verifyApproval hnext (by decide)
    have h := hagree .verifyApproval wf hnext rfl hwf
    obtain ⟨-, -, -, p, r, review, hrev, happ⟩ := ht.stage
    have happrove := h.approved rfl
    refine ⟨wf, p, review, hwf, hrev.persisted, happrove, ?_, fun decision hlast => ?_,
      fun herr => verifyApprovalAndLock_raises happrove _ _ herr rfl⟩
    · exact (happ happrove).imp (fun h => h.1) fun h => h.2
    · have haction := (h.decided decision hlast).2
      exact Option.some.inj (Option.some.inj (haction.symm.trans happrove))
  · intro hnext
    obtain ⟨wf, hwf, -⟩ := hinv.task .buildPlan hnext (by decide)
    obtain ⟨review, hrisk, hblock⟩ := (hagree .buildPlan wf hnext rfl hwf).risk rfl
    refine ⟨wf, review, hwf, hrisk, hblock, ?_⟩
    unfold checkRiskPrerequisite Prog.refuseIf
    rw [if_neg hblock]
    rfl

/-- The sample run, before its plan is built and when it is approved. -/
theorem routes_agree_sample :
    (Sample.after (Sample.toSubmit.take 6)).next = some .buildPlan ∧
    RoutesAgree Sample.deployment (Sample.after (Sample.toSubmit.take 6)) ∧
    (Sample.after (Sample.toSubmit.take 10)).next = some .verifyApproval ∧
    RoutesAgree Sample.deployment (Sample.after (Sample.toSubmit.take 10)) :=
  ⟨rfl, routes_agree Sample.deployment_tellsRevision (Sample.after_reachableWhen rfl), rfl,
    routes_agree Sample.deployment_tellsRevision (Sample.after_reachableWhen rfl)⟩

end

/-! ## The two cases occur -/

namespace Sample

/-- A plan that runs as a whole. -/
def wholePlan : PlanDraft := plan.withMode .single

/-- A proposed workflow. -/
def candidate : WorkflowCandidate := ⟨500, "sample", wholePlan, 1, none⟩

/-- The user selects a workflow and, asked about the HIGH risk of its code, sends it back; the plan
that replaces it is harmless. -/
def sentBack : List GraphAction :=
  [.accept 7, .start ⟨"user", "project", 1, 7, 8, "analyse", "basic"⟩, ran {}, ran {},
    ran { intentDecision := .ok ⟨.dataAnalysisExecution, false, none, none,
    question_of_no_clarification⟩ },
    ran { requestReview := .ok ⟨.low, "fine", .allow⟩ }, ran { candidates := .ok [candidate] },
    ran { resume := some (.workflowSelection ⟨some 500, 1, 1, ⟨[], Dict.sorted_nil⟩, false⟩) },
    ran { workflowVersion := .ok ⟨1, wholePlan, ⟨[], Dict.sorted_nil⟩⟩, boundPlan := .ok wholePlan,
          newPlanId := 100, newRevisionId := 101, newBundleId := 102 },
    ran { codeReview := .ok ⟨.high, "risky", .requireConfirmation⟩ },
    ran { resume := some (.planReview ⟨.revise, 101, 1, 1, some "without the upload", false⟩) },
    ran { plan := .ok wholePlan }, ran { newRevisionId := 201, newBundleId := 202 },
    ran { codeReview := .ok ⟨.low, "fine", .allow⟩ }]

/-- The review of a request recommends to block it, at the level LOW. -/
def blocked : List GraphAction :=
  [.accept 7, .start ⟨"user", "project", 1, 7, 8, "analyse", "basic"⟩, ran {}, ran {},
    ran { intentDecision := .ok ⟨.codeExecution, false, none, some .multi,
    question_of_no_clarification⟩ },
    ran { requestReview := .ok ⟨.low, "not allowed", .block⟩ }]

end Sample

/-- A plan that the user sent back a workflow for is not reviewed: it reaches `verify_approval`,
which refuses it. And the planner refuses a request that the graph let through. -/
theorem not_routesAgree :
    (sessionGraph Sample.deployment).Reachable (Sample.after Sample.sentBack) ∧
    ¬RoutesAgree Sample.deployment (Sample.after Sample.sentBack) ∧
    (sessionGraph Sample.deployment).Reachable (Sample.after Sample.blocked) ∧
    ¬RoutesAgree Sample.deployment (Sample.after Sample.blocked) := by
  refine ⟨Sample.after_reachable rfl, fun h => ?_, Sample.after_reachable rfl, fun h => ?_⟩
  · obtain ⟨wf, p, review, hwf, -, happrove, -⟩ := h.approval rfl
    have hrevise : ((Sample.after Sample.sentBack).values.workflow.bind
        WorkflowState.reviewAction) = some (some .revise) := rfl
    rw [hwf] at hrevise
    exact absurd (happrove.symm.trans hrevise) (by decide)
  · obtain ⟨wf, review, hwf, hrisk, hblock, -⟩ := h.prerequisite rfl
    have hreview : ((Sample.after Sample.blocked).values.workflow.bind
        WorkflowState.requestRisk).map RiskReview.recommendedAction = some .block := rfl
    rw [hwf] at hreview
    have hreview' : wf.requestRisk.map RiskReview.recommendedAction = some .block := hreview
    rw [hrisk] at hreview'
    exact hblock (Option.some.inj hreview')

end ExAgent.Graph
