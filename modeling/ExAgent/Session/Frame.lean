import ExAgent.Graph.Steps
import ExAgent.Session.System

/-!
# What a node does to the session

The business nodes work on the workflow; who owns the session and which input it has taken is
written by a few nodes only. `Completed` says of every field a caller decides by what a node that
completes leaves in it, and the lemmas on successors say which nodes lead to `reconcile_executor`,
`record_event_receipt` and `begin_task`. Together they are all that the results about sessions use
of the thirty-odd nodes.
-/

namespace ExAgent.Session

open Lib ExAgent.Graph Prog

/-- `invocation_owner` after a node, before the receipt of a request. -/
def ownerAfter (n : Node) (resume : Option Resume) (owner : Option (Option Owner)) :
    Option (Option Owner) :=
  match n, resume with
  | .beginTask, _ => some none
  | .waitExternalSignal, some (.worker a) => some (some (.executor a.commandId))
  | _, _ => owner

/-- `ew_pending` after a node. -/
def pendingAfter (n : Node) (resume : Option Resume) (pending : Option WorkerAction) :
    Option WorkerAction :=
  match n, resume with
  | .beginTask, _ => none
  | .waitExternalSignal, some (.worker a) => some a
  | .waitExternalSignal, _ => none
  | _, _ => pending

/-- `ew_receipts` after a node. -/
def receiptsAfter (n : Node) (s : SessionState) : Uuid → Option Uuid :=
  match n, s.ewPending with
  | .recordEventReceipt, some a =>
    Function.update s.ewReceipts a.commandId (some a.event.eventId)
  | _, _ => s.ewReceipts

/-- `ew_sequences` after a node. -/
def sequencesAfter (n : Node) (s : SessionState) : Uuid → Option ℕ :=
  match n, s.executionId, s.ewPending with
  | .registerExecution, some x, _ =>
    Function.update s.ewSequences x (some ((s.ewSequences x).getD 0))
  | .recordEventReceipt, _, some a =>
    Function.update s.ewSequences a.event.executionId (some a.event.eventSequence)
  | _, _, _ => s.ewSequences

/-- The request whose receipt a node adds. -/
def stamps? (config : Config) (n : Node) (s : SessionState) : Option ApiAction :=
  config.apiAction.filter fun a =>
    a.targetNode = n ∧ n.isInput = true ∧ s.apiReceipts a.requestId = none

/-- What the body of a node leaves in the session. -/
structure Updated (n : Node) (resume : Option Resume) (s s' : SessionState) : Prop where
  /-- A node that interrupts completes only with an answer. -/
  answered : interruptKind n ≠ none → resume ≠ none
  turn : s'.turn = s.turn
  active : n ≠ .beginTask → s'.activeTaskId = s.activeTaskId
  requests : n ≠ .beginTask → s'.taskRequests = s.taskRequests
  owner : s'.invocationOwner = ownerAfter n resume s.invocationOwner
  pending : s'.ewPending = pendingAfter n resume s.ewPending
  receipts : s'.ewReceipts = receiptsAfter n s
  sequences : s'.ewSequences = sequencesAfter n s
  api : s'.apiReceipts = s.apiReceipts
  /-- An event is accepted with a sequence above those of its execution. -/
  fresh : ∀ a, n = .waitExternalSignal → resume = some (.worker a) →
    (s.ewSequences a.event.executionId).getD 0 < a.event.eventSequence
  /-- Any other answer that `wait_external_signal` accepts is a cancellation. -/
  signal : n = .waitExternalSignal → ∃ wf x, s'.workflow = some wf ∧ wf.externalSignal = some x ∧
    (x.cancel? = none ↔ ∃ a, resume = some (.worker a))

/-- What a node leaves in the session. -/
structure Completed (config : Config) (n : Node) (resume : Option Resume) (s s' : SessionState) :
    Prop where
  answered : interruptKind n ≠ none → resume ≠ none
  turn : s'.turn = s.turn
  active : n ≠ .beginTask → s'.activeTaskId = s.activeTaskId
  requests : n ≠ .beginTask → s'.taskRequests = s.taskRequests
  owner : s'.invocationOwner = ((stamps? config n s).map fun a => some (.api a.requestId)).or
    (ownerAfter n resume s.invocationOwner)
  pending : s'.ewPending = pendingAfter n resume s.ewPending
  receipts : s'.ewReceipts = receiptsAfter n s
  sequences : s'.ewSequences = sequencesAfter n s
  api : s'.apiReceipts = (stamps? config n s).elim s.apiReceipts fun a =>
    Function.update s.apiReceipts a.requestId (some ⟨a.taskId, a.fingerprint⟩)
  fresh : ∀ a, n = .waitExternalSignal → resume = some (.worker a) →
    (s.ewSequences a.event.executionId).getD 0 < a.event.eventSequence
  signal : n = .waitExternalSignal → ∃ wf x, s'.workflow = some wf ∧ wf.externalSignal = some x ∧
    (x.cancel? = none ↔ ∃ a, resume = some (.worker a))

section

variable {D : Deployment} {config : Config} {svc : Services} {n : Node} {s s' : SessionState}
  {wf : WorkflowState}

/-! ## Bodies -/

/-- What waits for an answer first completes with one. -/
theorem answered_resumeSignal {α : Type} (f : Resume → Run α) :
    Triple (fun _ => True) (resumeSignal svc >>= f) (fun _ _ => svc.resume ≠ none)
      fun _ => True := by
  refine resumeSignal_spec.bind fun signal => .assume fun hsignal => ?_
  exact ⟨fun _ _ _ _ => trivial, fun _ _ _ _ => by simp [hsignal], fun _ _ _ _ => trivial⟩

/-- A key that is read before does not change that. -/
theorem answered_need {α β : Type} {key : String} {x : Option α} {f : α → Run β}
    (hf : ∀ a, Triple (fun _ => True) (f a) (fun _ _ => svc.resume ≠ none) fun _ => True) :
    Triple (fun _ => True) (need key x >>= f) (fun _ _ => svc.resume ≠ none) fun _ => True :=
  (Triple.demand fun _ h => h).bind fun a => .assume fun _ => hf a

/-- The business nodes that interrupt complete with an answer. -/
theorem businessNode_answered (hn : n ≠ .waitExternalSignal) (hk : interruptKind n ≠ none) :
    Triple (fun _ => True) (businessNode D svc n wf) (fun _ _ => svc.resume ≠ none)
      fun _ => True := by
  cases n with
  | clarifyRequest => exact answered_need fun _ => answered_resumeSignal _
  | chooseExecutionMode => exact answered_resumeSignal _
  | confirmRequestRisk => exact answered_need fun _ => answered_resumeSignal _
  | chooseWorkflow => exact answered_need fun _ => answered_need fun _ => answered_resumeSignal _
  | reviewPlan =>
    exact answered_need fun _ => answered_need fun _ => answered_need fun _ =>
      answered_resumeSignal _
  | waitExternalSignal => exact absurd rfl hn
  | _ => exact absurd rfl hk

/-- A business node changes the workflow and the execution only. -/
theorem Updated.of_business (hn : n.isBusiness = true) {s : SessionState}
    (ha : interruptKind n ≠ none → svc.resume ≠ none) (wf : WorkflowState) :
    Updated n svc.resume s { s with workflow := some wf, executionId := wf.executionId } := by
  have hne : n ≠ .beginTask ∧ n ≠ .registerExecution ∧ n ≠ .waitExternalSignal ∧
      n ≠ .recordEventReceipt := by
    refine ⟨?_, ?_, ?_, ?_⟩ <;> rintro rfl <;> exact absurd hn (by decide)
  obtain ⟨hbegin, hregister, hwait, hrecord⟩ := hne
  refine ⟨ha, rfl, fun _ => rfl, fun _ => rfl, ?_, ?_, ?_, ?_, rfl, fun _ h => absurd h hwait,
    fun h => absurd h hwait⟩
  · unfold ownerAfter
    split <;> first | rfl | contradiction
  · unfold pendingAfter
    split <;> first | rfl | contradiction
  · unfold receiptsAfter
    split <;> first | rfl | contradiction
  · unfold sequencesAfter
    split <;> first | rfl | contradiction

/-- `begin_task` leaves the Session as `Updated` says. -/
theorem beginTask_updated : Triple (fun _ => True) (beginTask D config s)
    (fun s' _ => Updated .beginTask svc.resume s s') fun _ => True := by
  refine (Triple.demand fun _ h => h).bind fun turn => .assume fun hturn => ?_
  refine (Triple.refuseIf fun _ h => h).bind fun _ => .assume fun _ => ?_
  refine (Triple.refuseIf fun _ h => h).bind fun _ => .assume fun _ => ?_
  refine (Triple.refuseIf fun _ h => h).bind fun _ => .assume fun _ => ?_
  refine (Triple.refuseIf fun _ h => h).bind fun _ => .assume fun _ => .pure fun _ _ => ?_
  exact ⟨fun h => absurd rfl h, rfl, fun h => absurd rfl h, fun h => absurd rfl h, rfl, rfl, rfl,
    rfl, rfl, nofun, nofun⟩

/-- So does `register_execution`. -/
theorem registerExecution_updated : Triple (fun _ => True) (registerExecution svc s)
    (fun s' _ => Updated .registerExecution svc.resume s s') fun _ => True := by
  refine (Triple.demand fun _ h => h).bind fun x => .assume fun hx => ?_
  refine (Triple.ofExcept fun _ h => h).bind fun _ => .assume fun _ => .pure fun _ _ => ?_
  refine ⟨fun h => absurd rfl h, rfl, fun _ => rfl, fun _ => rfl, rfl, rfl, rfl, ?_,
    rfl, nofun, nofun⟩
  simp only [sequencesAfter, hx]

/-- So does `wait_external_signal`, with the answer it was resumed with. -/
theorem waitExternalSignal_updated : Triple (fun _ => True) (waitExternalSignal svc s)
    (fun s' _ => Updated .waitExternalSignal svc.resume s s') fun _ => True := by
  refine (Triple.demand fun _ h => h).bind fun raw => .assume fun hraw => ?_
  refine (Triple.demand fun _ h => h).bind fun wf => .assume fun _ => ?_
  rw [hraw]
  cases raw with
  | cancelRequested signal =>
    refine (Triple.refuseIf fun _ h => h).bind fun _ => .assume fun _ => .pure fun _ _ => ?_
    exact ⟨nofun, rfl, fun _ => rfl, fun _ => rfl, rfl, rfl, rfl, rfl, rfl, nofun,
      fun _ => ⟨_, .cancel signal, rfl, rfl, by simp [ExternalSignal.cancel?]⟩⟩
  | worker action =>
    refine (Triple.refuseIf fun _ h => h).bind fun _ => .assume fun _ => ?_
    refine (Triple.refuseIf fun _ h => h).bind fun _ => .assume fun _ => ?_
    refine (Triple.refuseIf fun _ h => h).bind fun _ => .assume fun hseq => ?_
    refine (Triple.demand fun _ h => h).bind fun _ => .assume fun _ => .pure fun _ _ => ?_
    refine ⟨nofun, rfl, fun _ => rfl, fun _ => rfl, rfl, rfl, rfl, rfl, rfl, ?_,
      fun _ => ⟨_, _, rfl, rfl, by simp [ExternalSignal.cancel?]⟩⟩
    rintro a - ha
    obtain rfl : action = a := by simpa using ha
    omega
  | _ => exact .raise fun _ h => h

/-- So does `record_event_receipt`. -/
theorem recordEventReceipt_updated : Triple (fun _ => True) (recordEventReceipt s)
    (fun s' _ => Updated .recordEventReceipt svc.resume s s') fun _ => True := by
  refine (Triple.demand fun _ h => h).bind fun action => .assume fun ha => .pure fun _ _ => ?_
  refine ⟨fun h => absurd rfl h, rfl, fun _ => rfl, fun _ => rfl, rfl, rfl, ?_, ?_,
    rfl, nofun, nofun⟩
  · simp only [receiptsAfter, ha]
  · simp only [sequencesAfter, ha]

/-- The body of every node. -/
theorem nodeBody_updated : Triple (fun _ => True) (nodeBody D config svc n s)
    (fun s' _ => Updated n svc.resume s s') fun _ => True := by
  by_cases hn : n.isBusiness = true
  · rw [nodeBody_business hn]
    refine (Triple.demand fun _ h => h).bind fun wf => .assume fun _ => ?_
    have hanswered : Triple (fun _ => True) (businessNode D svc n wf)
        (fun _ _ => interruptKind n ≠ none → svc.resume ≠ none) fun _ => True := by
      by_cases hk : interruptKind n = none
      · exact ⟨fun _ _ _ _ => trivial, fun _ _ _ _ h => absurd hk h, fun _ _ _ _ => trivial⟩
      · have hwait : n ≠ .waitExternalSignal := by
          rintro rfl
          exact absurd hn (by decide)
        exact (businessNode_answered hwait hk).weaken (fun _ h => h) (fun _ _ h _ => h) fun _ h => h
    exact hanswered.bind fun wf' => .pure fun _ ha => .of_business hn ha wf'
  · cases n with
    | beginTask => exact beginTask_updated
    | registerExecution => exact registerExecution_updated
    | waitExternalSignal => exact waitExternalSignal_updated
    | recordEventReceipt => exact recordEventReceipt_updated
    | _ => exact absurd rfl hn

/-! ## Receipts -/

/-- A node that adds no receipt leaves what its body does. -/
theorem Updated.unstamped {resume : Option Resume} (h : Updated n resume s s')
    (hs : stamps? config n s = none) : Completed config n resume s s' :=
  ⟨h.answered, h.turn, h.active, h.requests, by simp [hs, h.owner], h.pending, h.receipts,
    h.sequences, by simp [hs, h.api], h.fresh, h.signal⟩

/-- The receipt of a request on top of the body of a node. -/
theorem Updated.stamped {resume : Option Resume} {a : ApiAction} (h : Updated n resume s s')
    (hs : stamps? config n s = some a) :
    Completed config n resume s { s' with
      apiReceipts := Function.update s.apiReceipts a.requestId (some ⟨a.taskId, a.fingerprint⟩)
      invocationOwner := some (some (.api a.requestId)) } :=
  ⟨h.answered, h.turn, h.active, h.requests, by simp [hs], h.pending, h.receipts, h.sequences,
    by simp [hs], h.fresh, h.signal⟩

/-- A node that completes leaves the Session as `Completed` says. -/
theorem runNode_completed : Triple (fun _ => True) (runNode D config svc n s)
    (fun s' _ => Completed config n svc.resume s s') fun _ => True := by
  refine nodeBody_updated.bind fun updated => ?_
  have hplain : stamps? config n s = none →
      Triple (fun _ => Updated n svc.resume s updated) (pure updated : Run SessionState)
        (fun s' _ => Completed config n svc.resume s s') fun _ => True :=
    fun hs => .pure fun _ h => h.unstamped hs
  by_cases hn : n.isInput = true
  · rw [if_pos hn]
    unfold stampReceipt
    cases hc : config.apiAction with
    | none => exact hplain (by simp [stamps?, hc])
    | some a =>
      dsimp only
      by_cases ht : a.targetNode = n
      · rw [if_neg (not_not.mpr ht)]
        refine (Triple.refuseIf fun _ _ => trivial).bind fun _ => .assume fun _ => ?_
        cases hr : s.apiReceipts a.requestId with
        | none =>
          have hs : stamps? config n s = some a := by simp [stamps?, hc, ht, hn, hr]
          exact .pure fun _ h => h.stamped hs
        | some stored =>
          refine (Triple.refuseIf fun _ _ => trivial).bind fun _ => .assume fun _ => ?_
          exact hplain (by simp [stamps?, hc, hr])
      · rw [if_pos ht]
        exact hplain (by simp [stamps?, hc, ht])
  · rw [if_neg hn]
    exact hplain (by simp [stamps?, hn])

/-- A completed node with its edge. -/
theorem superstep_completed {w : World} {next : Option Node}
    (h : (superstep D config svc n s w).result = .ok (s', next)) :
    Completed config n svc.resume s s' ∧ successor n s' = .ok next := by
  have hspec : Triple (fun _ => True) (superstep D config svc n s)
      (fun r _ => Completed config n svc.resume s r.1 ∧ successor n r.1 = .ok r.2)
      fun _ => True := by
    refine runNode_completed.bind fun after => ?_
    refine (Triple.ofExcept fun _ _ => trivial).bind fun next => .assume fun hnext => ?_
    exact .pure fun _ h => ⟨h, hnext⟩
  exact hspec.returns w trivial _ h

/-! ## Successors -/

/-- Where the routes lead. -/
theorem route_targets {route : WorkflowState → Except Raised Node} {m : Node}
    (hroute : routeOf n = some route) (h : route wf = .ok m) :
    m ≠ .beginTask ∧ m ≠ .recordEventReceipt ∧
      (m = .reconcileExecutor → n = .waitExternalSignal) := by
  cases n <;> simp only [routeOf, Option.some.injEq, reduceCtorEq] at hroute <;> subst hroute <;>
  simp only [routeIntent, routeRequestRisk, routeWorkflowSearch, routeWorkflowDecision,
    routeCodeRisk, routePlanReview, routeApprovedExecution, routeExternalSignal,
    routeReconciliation, routeMultiAction, routeKey, bind, Except.bind, pure, Except.pure] at h <;>
  (repeat' split at h) <;>
  first
  | (obtain rfl := Except.ok.inj h
     simp)
  | cases h

/-- No node leads to `begin_task`, and only their neighbours lead to the two nodes behind a wait. -/
theorem successor_targets {m : Node} (h : successor n s = .ok (some m)) :
    m ≠ .beginTask ∧ (m = .recordEventReceipt → n = .reconcileExecutor) ∧
      (m = .reconcileExecutor → n = .waitExternalSignal) := by
  unfold successor at h
  cases hroute : routeOf n with
  | none =>
    rw [hroute] at h
    have hedge : edgeOf n = some m := Except.ok.inj h
    cases n <;> simp only [edgeOf, Option.some.injEq, reduceCtorEq] at hedge <;>
      subst hedge <;> simp
  | some route =>
    rw [hroute] at h
    cases hwf : s.workflow with
    | none => simp [hwf] at h
    | some wf =>
      simp only [hwf] at h
      cases hm : route wf with
      | error e => simp [hm, Except.map] at h
      | ok m' =>
        obtain rfl : m' = m := by simpa [hm, Except.map] using h
        obtain ⟨hbegin, hrecord, hreconcile⟩ := route_targets hroute hm
        exact ⟨hbegin, fun h => absurd h hrecord, hreconcile⟩

/-- An event leads from a wait to `reconcile_executor`, and a cancellation does not. -/
theorem Completed.successor_wait {resume : Option Resume} {next : Option Node}
    (h : Completed config .waitExternalSignal resume s s')
    (hnext : successor .waitExternalSignal s' = .ok next) :
    next = some .reconcileExecutor ↔ ∃ a, resume = some (.worker a) := by
  obtain ⟨wf, x, hwf, hx, hiff⟩ := h.signal rfl
  rw [← hiff]
  have hroute : (routeExternalSignal wf).map some = .ok next := by
    simpa [successor, routeOf, hwf] using hnext
  cases hc : x.cancel? with
  | none =>
    have : next = some .reconcileExecutor := by
      simpa [routeExternalSignal, routeKey, hx, hc, bind, Except.bind, pure,
        Except.pure, Except.map, eq_comm] using hroute
    simp [this]
  | some c =>
    have : next = some .cancelExecution := by
      simpa [routeExternalSignal, routeKey, hx, hc, bind, Except.bind, pure,
        Except.pure, Except.map, eq_comm] using hroute
    simp [this]

end

end ExAgent.Session
