import ExAgent.Graph.Frame

/-!
# The Tasks of a session

No node removes the row of a Task, whether it completes, raises or is stopped (`superstep_tasks`),
so the Tasks that were ever admitted to a session stay its Tasks. `begin_task` makes one of them the
active one, under the identity of its turn (`superstep_begun`).
-/

namespace ExAgent.Graph

open Lib Prog

/-- Every Task still has a row. -/
def TasksKept (w w' : World) : Prop := ∀ id, w.tasks.get id ≠ none → w'.tasks.get id ≠ none

/-- No commit keeps the Tasks. -/
theorem TasksKept.refl (w : World) : TasksKept w w := fun _ h => h

/-- Commits that keep the Tasks follow each other. -/
theorem TasksKept.trans {w w' w'' : World} (h : TasksKept w w') (h' : TasksKept w' w'') :
    TasksKept w w'' := fun id hid => h' id (h id hid)

/-- The Tasks have the rows they had, up to what is in them. -/
theorem TasksKept.of_map {α : Type} {w w' : World} {view : TaskRow → α}
    (h : ∀ id, (w'.tasks.get id).map view = (w.tasks.get id).map view) : TasksKept w w' := by
  intro id hid hnone
  have hview := h id
  rw [hnone, Option.map_none] at hview
  exact hid (Option.map_eq_none_iff.mp hview.symm)

/-- A calm commit keeps the Tasks. -/
theorem Calm.kept {taskId : Uuid} {w w' : World} (h : Calm taskId w w') : TasksKept w w' := by
  intro id hid
  by_cases hown : id = taskId
  · subst hown
    obtain ⟨t, ht⟩ := Option.ne_none_iff_exists'.mp hid
    obtain ⟨t', ht', -⟩ := h.row_some ht
    simp [ht']
  · rw [h.tasks id hown]
    exact hid

/-- Quiet commits keep the Tasks. -/
theorem tasksKept_closed (w : World) : QuietClosed (TasksKept w) :=
  fun _ _ h hq => h.trans (.of_map hq.tasks)

section

variable {D : Deployment} {config : Config} {svc : Services} {w₀ : World} {s : SessionState}
  {wf : WorkflowState} {n : Node}

/-! ## The nodes that report and close a Task -/

/-- A terminal message keeps every Task row there is. -/
theorem terminal_tasks {taskId : Uuid} {status : TaskStatus} {message : String}
    {metadata : Option TerminalMetadata} :
    Triple (TasksKept w₀) (terminal taskId status message metadata) (fun _ => TasksKept w₀)
      (TasksKept w₀) := by
  refine .transact (fun w hw a w' h => ?_) fun _ h => h
  split_ifs at h
  split at h
  · exact absurd h (by simp)
  · split_ifs at h
    · obtain ⟨-, rfl⟩ := Prod.mk.inj (Except.ok.inj h)
      exact ⟨hw, hw⟩
    · obtain ⟨-, rfl⟩ := Prod.mk.inj (Except.ok.inj h)
      suffices hkept : TasksKept w₀ _ from ⟨hkept, hkept⟩
      have hview : ∀ id, ((w.tasks.modifyAt taskId fun t => { t with
          status
          terminalMessage := some message
          assistant := some (message, metadata) }).get id).map TaskRow.executionId =
            (w.tasks.get id).map TaskRow.executionId := map_modifyAt w.tasks taskId fun _ _ => rfl
      exact hw.trans (.of_map hview)

/-- A published report keeps every Task row there is. -/
theorem report_tasks {evidence : ReportEvidence} :
    Triple (TasksKept w₀) (report D svc wf evidence) (fun _ => TasksKept w₀) (TasksKept w₀) := by
  refine (Triple.demand fun _ h => h).bind fun x => .assume fun _ => ?_
  refine (Triple.refuseIf fun _ h => h).bind fun _ => .assume fun _ => ?_
  have hprepare : Triple (fun w => TasksKept w₀ w ∧ w.effects.get (.report wf.activeTaskId) = none)
      (do
        let markdown ← .ofExcept svc.report
        pure (ExecutorRequest.report x ⟨wf.activeTaskId, D.sha256 markdown, "md"⟩ markdown))
      (fun _ => TasksKept w₀) (TasksKept w₀) :=
    (Triple.ofExcept fun _ h => h.1).bind fun _ => .assume fun _ => .pure fun _ h => h.1
  refine ((journalRun_spec (fun _ => TasksKept w₀) (fun _ _ => True) (tasksKept_closed w₀) hprepare
    (fun _ _ h => h) (fun _ _ h => h) (fun _ _ _ _ _ => trivial) fun request row _ _ =>
      (send_spec svc wf.activeTaskId request (fun _ h => h) fun _ h => h).weaken (fun _ h => h.1)
        (fun _ _ h => h) fun _ h => h).weaken (fun _ h => h) (fun _ _ h => h.1) fun _ h => h).bind
    fun record => ?_
  refine (Triple.demand fun _ h => h).bind fun _ => .assume fun _ => ?_
  split
  · exact .pure fun _ h => h
  · exact .raise fun _ h => h

/-- A commit node keeps every Task row there is. -/
theorem commitWith_tasks {status : TaskStatus} {message : String} :
    Triple (TasksKept w₀) (commitWith wf status message) (fun _ => TasksKept w₀) (TasksKept w₀) :=
  terminal_tasks.bind fun _ => .pure fun _ h => h

/-! ## Every node -/

/-- No business node removes a Task. -/
theorem businessNode_tasks (hb : n.isBusiness = true) :
    Triple (TasksKept w₀) (businessNode D svc n wf) (fun _ => TasksKept w₀) (TasksKept w₀) := by
  by_cases hn : n.isCalm = true
  · have hcalm : ∀ w, Triple (Calm wf.activeTaskId w) (businessNode D svc n wf)
        (fun _ => Calm wf.activeTaskId w) (Calm wf.activeTaskId w) := fun w =>
      (calmNode hn hb svc wf w).weaken (fun _ h => h) (fun _ _ h => h.2) fun _ h => h
    exact .along (Calm.refl _) (fun _ _ hw hc => hw.trans hc.kept) hcalm
  · cases n with
    | generateReport =>
      exact (Triple.demand fun _ h => h).bind fun _ => .assume fun _ =>
        report_tasks.bind fun _ => .pure fun _ h => h
    | commitAnswer =>
      exact (Triple.demand fun _ h => h).bind fun _ => .assume fun _ =>
        terminal_tasks.bind fun _ => .pure fun _ h => h
    | commitSuccess =>
      exact (Triple.demand fun _ h => h).bind fun _ => .assume fun _ =>
        terminal_tasks.bind fun _ => .pure fun _ h => h
    | commitRejected => exact commitWith_tasks
    | commitBlocked =>
      exact (Triple.demand fun _ h => h).bind fun _ => .assume fun _ => commitWith_tasks
    | commitFailed =>
      exact (Triple.demand fun _ h => h).bind fun _ => .assume fun _ => commitWith_tasks
    | commitCancelled => exact commitWith_tasks
    | beginTask => exact absurd hb (by decide)
    | _ => exact absurd rfl hn

/-- The nodes of the session commit nothing. -/
theorem sessionNode_silent {I : World → Prop} (hb : n.isBusiness = false) :
    Triple I (nodeBody D config svc n s) (fun _ => I) I := by
  cases n with
  | beginTask => exact beginTask_spec.weaken (fun _ h => h) (fun _ _ h => h.2) fun _ h => h
  | registerExecution =>
    refine (Triple.demand fun _ h => h).bind fun x => .assume fun _ => ?_
    exact (Triple.ofExcept fun _ h => h).bind fun _ => .assume fun _ => .pure fun _ h => h
  | recordEventReceipt =>
    exact (Triple.demand fun _ h => h).bind fun _ => .assume fun _ => .pure fun _ h => h
  | waitExternalSignal =>
    refine (Triple.demand fun _ h => h).bind fun raw => .assume fun _ => ?_
    refine (Triple.demand fun _ h => h).bind fun wf => .assume fun _ => ?_
    cases raw with
    | cancelRequested signal =>
      exact (Triple.refuseIf fun _ h => h).bind fun _ => .assume fun _ => .pure fun _ h => h
    | worker action =>
      refine (Triple.refuseIf fun _ h => h).bind fun _ => .assume fun _ => ?_
      refine (Triple.refuseIf fun _ h => h).bind fun _ => .assume fun _ => ?_
      refine (Triple.refuseIf fun _ h => h).bind fun _ => .assume fun _ => ?_
      exact (Triple.demand fun _ h => h).bind fun _ => .assume fun _ => .pure fun _ h => h
    | _ => exact .raise fun _ h => h
  | _ => exact absurd hb (by decide)

/-- No node removes a Task row: the commit nodes by their own lemma, the others by calm commits. -/
theorem nodeBody_tasks :
    Triple (TasksKept w₀) (nodeBody D config svc n s) (fun _ => TasksKept w₀) (TasksKept w₀) := by
  cases hb : n.isBusiness with
  | false => exact sessionNode_silent hb
  | true =>
    rw [nodeBody_business hb]
    refine (Triple.demand fun _ h => h).bind fun wf => .assume fun _ => ?_
    exact (businessNode_tasks hb).bind fun _ => .pure fun _ h => h

/-- No node removes a Task, wherever it stops. -/
theorem superstep_tasks :
    Triple (TasksKept w₀) (superstep D config svc n s) (fun _ => TasksKept w₀) (TasksKept w₀) := by
  have hrun : Triple (TasksKept w₀) (runNode D config svc n s) (fun _ => TasksKept w₀)
      (TasksKept w₀) :=
    nodeBody_tasks.bind fun updated =>
      receipt_spec.weaken (fun _ h => h) (fun _ _ h => h.2) fun _ h => h
  refine hrun.bind fun s' => ?_
  exact (Triple.ofExcept fun _ h => h).bind fun next => .assume fun _ => .pure fun _ h => h

/-! ## Who is active -/

/-- `begin_task` takes the turn of a session whose last Task has ended. -/
structure Begun (D : Deployment) (s : SessionState) (turn : TaskTurn)
    (s' : SessionState) : Prop where
  stored : s.turn = some turn
  ended : ∀ wf, s.workflow = some wf → wf.phase.isTerminal = true
  new : s.taskRequests turn.activeTaskId = none
  workflow : s'.workflow = some (.ofTurn turn)
  active : s'.activeTaskId = some turn.activeTaskId
  requests : s'.taskRequests =
    Function.update s.taskRequests turn.activeTaskId (some (D.fingerprint turn))

/-- `begin_task` returns a Session that begins a turn or goes on with one. -/
theorem beginTask_begun : Triple (fun _ => True) (beginTask D config s)
    (fun s' _ => ∃ turn, Begun D s turn s') fun _ => True := by
  refine (Triple.demand fun _ h => h).bind fun turn => .assume fun hturn => ?_
  refine (Triple.refuseIf fun _ h => h).bind fun _ => .assume fun _ => ?_
  refine (Triple.refuseIf fun _ h => h).bind fun _ => .assume fun _ => ?_
  refine (Triple.refuseIf fun _ h => h).bind fun _ => .assume fun hended => ?_
  refine (Triple.refuseIf fun _ h => h).bind fun _ => .assume fun hnew => .pure fun _ _ => ?_
  refine ⟨turn, hturn, fun wf hwf => ?_, not_not.mp hnew, rfl, rfl, rfl⟩
  by_contra hopen
  exact hended ⟨wf, by simp [hwf], by simpa using hopen⟩

/-- `begin_task` with its receipt and its edge. -/
theorem superstep_begun {w : World} {s' : SessionState} {next : Option Node}
    (h : (superstep D config svc .beginTask s w).result = .ok (s', next)) :
    ∃ turn, Begun D s turn s' := by
  have hreceipt : ∀ updated : SessionState, Triple (fun _ => ∃ turn, Begun D s turn updated)
      (if Node.beginTask.isInput then stampReceipt config .beginTask s updated else pure updated)
      (fun s' _ => ∃ turn, Begun D s turn s') fun _ => True := by
    intro updated
    refine (receipt_spec (I := fun _ => ∃ turn, Begun D s turn updated)).weaken (fun _ h => h)
      (fun s' _ hs => ?_) fun _ _ => trivial
    obtain ⟨hcore, turn, hb⟩ := hs
    exact ⟨turn, hb.stored, hb.ended, hb.new, hcore.workflow.trans hb.workflow,
      hcore.active.trans hb.active, hcore.requests.trans hb.requests⟩
  have hspec : Triple (fun _ => True) (superstep D config svc .beginTask s)
      (fun r _ => ∃ turn, Begun D s turn r.1) fun _ => True :=
    (beginTask_begun.bind hreceipt).bind fun s' =>
      (Triple.ofExcept fun _ _ => trivial).bind fun next => .assume fun _ => .pure fun _ h => h
  exact hspec.returns w trivial _ h

end

end ExAgent.Graph
