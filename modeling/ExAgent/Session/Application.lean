import ExAgent.Graph.Guarantees
import ExAgent.Session.Ownership

/-!
# API input is applied once, where it was admitted

What an `ainvoke` made for a request may be (`Entitled`): the answer to the interrupt of its
admission, at the node that waits; its turn, at the checkpoint it was admitted at; and `None` for
pending nodes that the request has started itself, behind its receipt only while it is the recorded
owner and no interrupt is open. And the checkpoint that adds the receipt of a request is the only
one to do so, and has consumed the request's own input (`AppliedBy`).

The theorem is about runs in which no delivery leaves its event behind with the wait. Without that,
an answer that is given later does not reach the node: the last section has a cancellation whose
call consumes the event that the cancelled attempt of a delivery had left, and puts the
cancellation's receipt into that checkpoint.
-/

namespace ExAgent.Session

open Lib ExAgent.Graph

/-- What `ainvoke` may be given for a request, after the entries before it. -/
structure Entitled (pre : List Entry) (row : RequestRow) (input : Input) (t : Thread) : Prop where
  admitted : ∃ r₀, .admitted r₀ ∈ pre ∧ SameRequest r₀ row
  /-- The payload answers the interrupt of the admission, at the target. -/
  answer : ∀ interruptId value, input = .resume interruptId value →
    ∃ signal, row.command.input = .resume interruptId signal ∧ value = signal.toResume ∧
      t.interrupt = some interruptId ∧ t.next = some row.targetNode
  /-- The turn is given where nothing is pending, at the checkpoint of the admission. -/
  turn : ∀ turn, input = .turn turn → row.command.input = .start ∧ turn = row.command.turn ∧
    t.next = none ∧ t.checkpointId = row.baseCheckpointId
  /-- Behind its receipt, a request goes on with pending nodes it owns, and answers nothing. -/
  receipted : t.values.apiReceipts row.command.requestId ≠ none → input = .pending ∧
    t.values.invocationOwner = some (some (.api row.command.requestId)) ∧ t.interrupt = none
  /-- Pending nodes that a request goes on with go back to its own input. -/
  own : input = .pending → t.starter = some (.api row.command.requestId)

/-- The checkpoint adds the receipt of a request. -/
def Entry.Adds : Entry → Uuid → Prop
  | .checkpointed _ _ _ before after, k =>
    before.apiReceipts k = none ∧ after.apiReceipts k ≠ none
  | _, _ => False

/-- The checkpoint is made by the call of a request, at its target, with its own input. -/
def Entry.AppliedBy : Entry → Uuid → Prop
  | .checkpointed (.api row) n resume before _, k =>
    row.command.requestId = k ∧ n = row.targetNode ∧
      match row.command.input with
      | .start => before.turn = some row.command.turn
      | .resume _ signal => resume = some signal.toResume
  | _, _ => False

/-- Every `ainvoke` for a request is one the request is entitled to, and its receipt is added once,
by the checkpoint that consumes its input. -/
structure AppliedOnce (log : List Entry) : Prop where
  entitled : Each (fun pre e => ∀ row input t, e = .invoked (.api row) input t →
    Entitled pre row input t) log
  applied : Each (fun pre e => ∀ k, e.Adds k → (∀ e' ∈ pre, ¬e'.Adds k) ∧ e.AppliedBy k) log

section

variable {H : Host} {s s' : System} {left : Option Owner}

/-- What `next_invocation` decides in the call of a request, the request is entitled to. -/
theorem Owned.entitled (h : Owned H s) (hrows : Rows s) {record : RequestRow} {input : Input}
    (hrun : s.running = some (.api record, .deciding)) (hdec : Decided H s.thread record input) :
    Entitled s.log record input s.thread := by
  obtain ⟨hrow, hstate⟩ := hrows.held record _ hrun
  have hadmitted := hrows.logged _ _ hrow
  -- Before `begin_task` there is no answer, so the work goes back to the stored turn.
  have hbegun : s.thread.next = some .beginTask →
      s.thread.starter = some (.api record.command.requestId) := by
    intro hnext
    have hsource := (h.source_of_api hrows hrun (.inr hnext)).1
    simpa [Thread.source, hrows.shape.answer?_eq_none hnext] using hsource
  cases hdec with
  | own hreceipt hown =>
    refine ⟨hadmitted, by simp, by simp, fun _ => ⟨rfl, hown.2.2, hown.2.1⟩, fun _ => ?_⟩
    by_cases hnext : s.thread.next = some .beginTask
    · exact hbegun hnext
    · exact h.owner _ record hnext hown.2.2 hrow (by rw [hstate]; rfl)
  | begun hreceipt hin hnext hturn =>
    exact ⟨hadmitted, by simp, by simp, fun hr => absurd hreceipt hr, fun _ => hbegun hnext⟩
  | start hreceipt hin hnext hbase =>
    refine ⟨hadmitted, by simp, fun turn ht => ?_, fun hr => absurd hreceipt hr, by simp⟩
    exact ⟨hin, (Input.turn.inj ht).symm, hnext, hbase⟩
  | @answer interruptId signal hreceipt hin hvalid =>
    obtain ⟨hint, hnext, -⟩ := validateResumeSnapshot_ok hvalid
    refine ⟨hadmitted, fun id value hv => ?_, by simp, fun hr => absurd hreceipt hr, by simp⟩
    obtain ⟨rfl, rfl⟩ := Input.resume.inj hv
    exact ⟨signal, hin, rfl, hint, hnext⟩
  | stored hreceipt hin hint hnext hbase =>
    -- At the checkpoint of the admission the interrupt is shown.
    exact absurd hint (hrows.shown _ record hrow (by simp [hin]) hbase.symm)

/-- A checkpoint that adds a receipt has consumed the input of its request. -/
theorem Owned.appliedBy (h : Owned H s) (hrows : Rows s) {call : Call} {n : Node}
    {after : SessionState} {k : Uuid} (hrun : s.running = some (call, .looping))
    (hnext : s.thread.next = some n)
    (hc : Completed (call.config H) n s.thread.resume s.thread.values after)
    (hadds : (Entry.checkpointed call n s.thread.resume s.thread.values after).Adds k) :
    (Entry.checkpointed call n s.thread.resume s.thread.values after).AppliedBy k := by
  obtain ⟨hbefore, hafter⟩ := hadds
  rw [hc.api] at hafter
  cases hst : stamps? (call.config H) n s.thread.values with
  | none => exact absurd hbefore (by simpa [hst] using hafter)
  | some a =>
    obtain ⟨record, rfl, rfl, rfl, hin, -⟩ := stamps?_eq_some hst
    have hk : record.command.requestId = k := by
      by_contra hne
      rw [hst] at hafter
      simp [Function.update_of_ne (Ne.symm hne), RequestRow.action, hbefore] at hafter
    obtain ⟨-, haw⟩ := h.source_of_api hrows hrun (unconsumed_of_input hnext hin hc)
    refine ⟨hk, rfl, ?_⟩
    have hinput := haw.input
    cases hr : record.command.input with
    | start =>
      rw [hr] at hinput
      exact hinput
    | resume interruptId signal =>
      rw [hr] at hinput
      exact hinput.1

/-- A receipt stays. -/
theorem Completed.receipt_kept {config : Config} {n : Node} {resume : Option Resume}
    {v v' : SessionState} (h : Completed config n resume v v') {k : Uuid}
    (hk : v.apiReceipts k ≠ none) : v'.apiReceipts k ≠ none := by
  rw [h.api]
  cases stamps? config n v with
  | none => exact hk
  | some a =>
    by_cases hne : k = a.requestId
    · simp [hne]
    · simpa [Function.update_of_ne hne] using hk

/-- An input that is taken touches no receipt of a command. -/
theorem put_apiReceipts {t : Thread} (owner : Owner) (input : Input) :
    (t.put owner input).values.apiReceipts = t.values.apiReceipts := by
  cases input with
  | turn turn => rfl
  | resume interruptId value =>
    unfold Thread.put
    dsimp only
    split_ifs <;> rfl
  | pending => rfl

/-- The log of a session is sound, and what was added is in the checkpoint. -/
structure Applied (s : System) : Prop where
  once : AppliedOnce s.log
  present : ∀ e ∈ s.log, ∀ k, e.Adds k → s.thread.values.apiReceipts k ≠ none

/-- An entry that is no checkpoint, and no `ainvoke` that its request is not entitled to. -/
theorem Applied.concat (h : Applied s) {e : Entry} {thread : Thread} {tables : Tables}
    {running : Option (Call × Phase)}
    (hentitled : ∀ row input t, e = .invoked (.api row) input t → Entitled s.log row input t)
    (hadds : ∀ k, ¬e.Adds k) (hkept : thread.values.apiReceipts = s.thread.values.apiReceipts) :
    Applied ⟨thread, tables, running, s.log ++ [e]⟩ := by
  refine ⟨⟨h.once.entitled.concat hentitled, h.once.applied.concat fun k hk => absurd hk (hadds k)⟩,
    fun e' he' k hk => ?_⟩
  rcases List.mem_append.mp he' with he' | he'
  · rw [hkept]
    exact h.present e' he' k hk
  · obtain rfl := List.mem_singleton.mp he'
    exact absurd hk (hadds k)

/-- A step keeps what is applied. -/
theorem Move.applied (h : Applied s) (howned : Owned H s) (hrows : Rows s)
    (hmove : Move H s left s') : Applied s' := by
  have hinvoke : ∀ (call : Call) (input : Input),
      (∀ row, call = .api row → Entitled s.log row input s.thread) →
      Applied (s.invoke call input) := by
    intro call input hent
    refine h.concat (fun row input' t he => ?_) (fun k hk => hk) (put_apiReceipts _ _)
    obtain ⟨hcall, rfl, rfl⟩ := Entry.invoked.inj he
    exact hent row hcall
  cases hmove with
  | free cleanups log hout hlog =>
    rcases hlog with rfl | ⟨d, e, rfl⟩
    · exact ⟨h.once, h.present⟩
    · exact h.concat (by simp) (fun k hk => hk) rfl
  | admitted hfree htarget hstore => exact h.concat (by simp) (fun k hk => hk) rfl
  | died | row | claimed | delivery | nothing | interrupt | broken => exact ⟨h.once, h.present⟩
  | request hrun hinput =>
    refine hinvoke _ _ fun row hrow => ?_
    obtain rfl := Call.api.inj hrow
    exact howned.entitled hrows hrun (nextInvocation_decided hinput)
  | event hrun hinput => exact hinvoke _ _ fun row hrow => absurd hrow (by simp)
  | checkpoint phase hrun hnext hok =>
    obtain ⟨hc, -⟩ := superstep_completed hok
    refine ⟨⟨h.once.entitled.concat (by simp), h.once.applied.concat fun k hk => ⟨?_, ?_⟩⟩, ?_⟩
    · intro e' he' hk'
      exact h.present e' he' k hk' hk.1
    · exact howned.appliedBy hrows hrun hnext hc hk
    · intro e' he' k hk
      rcases List.mem_append.mp he' with he' | he'
      · exact hc.receipt_kept (h.present e' he' k hk)
      · obtain rfl := List.mem_singleton.mp he'
        exact hk.2

end

/-! ## A sample session

A host around the sample deployment of the session graph. Task 7 is planned and approved, and its
execution 30 waits for an event. -/

namespace Sample

/-- The host. -/
def host : Host where
  deployment := Graph.Sample.deployment
  sessionId := 1
  fingerprint command := command.requestId
  maxAttempts := 5

/-- The turn of Task 7. -/
def turn : TaskTurn := ⟨"user", "project", 1, 7, 8, "analyse", "basic"⟩

/-- A request from its admission to its result. -/
def serve (command : ApiRequest) (nodes : List Services) : List Action :=
  [.accept command, .execute command.requestId, .decide] ++ nodes.map .node ++ [.finish]

/-- Task 7 is started by request 61 and approved by request 62. -/
def waiting : List Action :=
  serve ⟨61, turn, .start⟩ [{}, {},
    { intentDecision := .ok ⟨.codeExecution, false, none, some .multi,
    Graph.question_of_no_clarification⟩ },
    { requestReview := .ok ⟨.low, "fine", .allow⟩ }, { plan := .ok Graph.Sample.plan },
    { newPlanId := 100, newRevisionId := 101, newBundleId := 102 },
    { codeReview := .ok ⟨.low, "fine", .allow⟩ }, {}] ++
  serve ⟨62, turn, .resume 8 (.planReview ⟨.approve, 101, 1, 1, none, false⟩)⟩
    [{}, {}, { command := .ok ⟨30, some 40, 1⟩ }, {}, {}]

/-- Command 91: execution 30 has completed. -/
def completed : Delivery :=
  ⟨7, 30, 91,
    ⟨51, 30, "execution.completed", 1, "", "", "", Worker.completed_nonempty, Nat.one_pos⟩⟩

/-- Request 63 cancels Task 7. -/
def cancel : ApiRequest := ⟨63, turn, .resume 12 (.cancelRequested ⟨7, none⟩)⟩

/-- The first host of the cancellation dies with the signal in its call, and the call of the second
one is cancelled when the wait has taken the signal. A third one recovers it. -/
def cancelled : List Action :=
  waiting ++ [.accept cancel, .deliver completed, .decide, .die, .execute 63, .decide, .die,
    .execute 63, .decide, .timeout {} 0 true, .finish, .execute 63, .decide, .node {}]

/-- The cancellation is admitted; a delivery of command 91 is cancelled when the wait has taken its
event; the cancellation is executed. -/
def overtaken : List Action :=
  waiting ++ [.accept cancel, .deliver completed, .decide, .timeout {} 0 true, .execute 63, .decide,
    .node {}]

/-- The state that a list of actions leads to. -/
def after (actions : List Action) : System := ((session host).run {} actions).getD {}

/-- The state a run ends in is the state after it. -/
theorem after_eq {actions : List Action} {s : System}
    (h : (session host).run {} actions = some s) : after actions = s := by
  unfold after
  rw [h]
  rfl

/-- A list of actions that runs to its end reaches a state. -/
theorem after_reachable {actions : List Action}
    (h : ((session host).run {} actions).isSome = true) :
    (session host).Reachable (after actions) := by
  obtain ⟨s, hs⟩ := Option.isSome_iff_exists.mp h
  rw [after_eq hs]
  exact Machine.Reachable.run (.start rfl) hs

/-- The same for steps that meet a condition. -/
theorem after_reachableWhen {C : System → Action → Prop} [∀ s a, Decidable (C s a)]
    {actions : List Action} (h : ((session host).runIf C {} actions).isSome = true) :
    (session host).ReachableWhen C (after actions) := by
  obtain ⟨s, hs⟩ := Option.isSome_iff_exists.mp h
  rw [after_eq (Machine.run_of_runIf hs)]
  exact Machine.ReachableWhen.runIf (.start rfl) hs

end Sample

/-- The answer of a request is never an event. -/
theorem toResume_ne_worker (signal : ApiSignal) (a : WorkerAction) :
    signal.toResume ≠ .worker a := by
  cases signal <;> simp [ApiSignal.toResume]

end ExAgent.Session
