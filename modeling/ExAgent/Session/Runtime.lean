import ExAgent.Graph.Topology

/-!
# A thread of the graph runtime

What LangGraph keeps of a session between calls, with `durability="sync"`: the last checkpoint (the
state of the session graph and the node that is next), the interrupt that node has raised, and the
answer to it that a failed attempt of the node has left.

A turn is stored before anything runs: `ainvoke` makes it a checkpoint that is next at `begin_task`,
and a caller that stops leaves it there. An answer is not stored by itself. It is with the `ainvoke`
that was given it, and a process that dies takes it along. It is written with the node's own writes
only: by the checkpoint of the node, which ends the wait, or by an attempt that ends by an exception
or a cancellation after `interrupt` has returned. An answer that is kept so stands before one that
is given later, and until the checkpoint of the node the interrupt is shown.

A checkpoint has a new identifier every time, and a wait keeps its interrupt identifier for as long
as it lasts, so the identifier of an interrupt is that of its checkpoint.
-/

namespace ExAgent.Session

open Lib ExAgent.Graph

/-- `kind` of an interrupt. -/
inductive InterruptKind
  | clarification
  | executionMode
  | requestRiskConfirmation
  | workflowSelection
  | planReview
  | executorEvent
deriving DecidableEq

/-- The value a node gives to `interrupt`, as far as a caller compares it with its own. -/
structure Boundary where
  kind : InterruptKind
  taskId : Option Uuid
  executionId : Option Uuid := none
  /-- `plan_revision_id`, `plan_revision_number` and `public_payload_hash`. -/
  persisted : Option PersistedPlan := none
  risk : Option RiskReview := none
  proposalVersion : Option ℕ := none
  candidates : List WorkflowCandidate := []

/-- The kind of the interrupt that a node raises. -/
def interruptKind : Node → Option InterruptKind
  | .clarifyRequest => some .clarification
  | .chooseExecutionMode => some .executionMode
  | .confirmRequestRisk => some .requestRiskConfirmation
  | .chooseWorkflow => some .workflowSelection
  | .reviewPlan => some .planReview
  | .waitExternalSignal => some .executorEvent
  | _ => none

/-- The interrupt of a node in a state. The business nodes read the Task of their workflow. -/
def boundaryOf (n : Node) (s : SessionState) : Option Boundary :=
  match interruptKind n with
  | none => none
  | some .executorEvent =>
    some { kind := .executorEvent, taskId := s.activeTaskId, executionId := s.executionId }
  | some .requestRiskConfirmation => s.workflow.map fun wf =>
    { kind := .requestRiskConfirmation, taskId := some wf.activeTaskId, risk := wf.requestRisk }
  | some .workflowSelection => s.workflow.map fun wf =>
    { kind := .workflowSelection
      taskId := some wf.activeTaskId
      proposalVersion := wf.workflowProposalVersion
      candidates := wf.workflowCandidates.getD [] }
  | some .planReview => s.workflow.map fun wf =>
    { kind := .planReview
      taskId := some wf.activeTaskId
      persisted := wf.persisted
      risk := wf.codeRisk }
  | some kind => s.workflow.map fun wf => { kind, taskId := some wf.activeTaskId }

/-- What `ainvoke` is given: a turn, the answer to an interrupt, or `None`. -/
inductive Input
  | turn (turn : TaskTurn)
  | resume (interruptId : ℕ) (value : Resume)
  | pending
deriving DecidableEq

/-- An answer to an interrupt. Who has given it is a history variable. -/
structure Answer where
  value : Resume
  giver : Owner
deriving DecidableEq

/-- A thread: the checkpoint with its tables, and what belongs to the node that is next. -/
structure Thread extends GraphState where
  checkpointId : ℕ := 0
  /-- The interrupt that the node has raised. -/
  interrupt : Option ℕ := none
  /-- The answer that a failed attempt of the node has left. -/
  kept : Option Answer := none
  /-- The answer that the running `ainvoke` was given; it is not stored. -/
  given : Option Answer := none
  /-- Whose input the pending work goes back to, a history variable. -/
  starter : Option Owner := none

/-- The answer that the node gets from `interrupt`. -/
def Thread.answer? (t : Thread) : Option Answer := t.kept.or t.given

/-- The value of that answer. -/
def Thread.resume (t : Thread) : Option Resume := t.answer?.map Answer.value

/-- Whose input the node that is next works on. -/
def Thread.source (t : Thread) : Option Owner := (t.answer?.map Answer.giver).or t.starter

/-- The interrupts of a snapshot's tasks: one at most, with the name of its node. -/
def Thread.boundary? (t : Thread) : Option (Node × ℕ × Boundary) :=
  match t.next, t.interrupt with
  | some n, some id => (boundaryOf n t.values).map fun b => (n, id, b)
  | _, _ => none

/-- There is an input that no node has returned from: a turn before `begin_task`, or an answer. -/
def Thread.Unconsumed (t : Thread) : Prop := t.resume ≠ none ∨ t.next = some .beginTask

instance (t : Thread) : Decidable t.Unconsumed := inferInstanceAs (Decidable (_ ∨ _))

/-- `ainvoke` takes its input: a turn is stored, an answer to the open interrupt goes with the call,
and an answer to another one is dropped. -/
def Thread.put (t : Thread) (owner : Owner) : Input → Thread
  | .turn turn => { t with
      values := { t.values with turn := some turn }
      next := some .beginTask
      checkpointId := t.checkpointId + 1
      interrupt := none
      kept := none
      given := none
      starter := some owner }
  | .resume interruptId value =>
    if t.interrupt = some interruptId then { t with given := some ⟨value, owner⟩ } else t
  | .pending => t

/-- The `ainvoke` ends before the node has returned. When the attempt had taken its answer, and ends
by an exception or a cancellation, its writes keep the answer. -/
def Thread.ended (t : Thread) (took : Bool) : Thread :=
  { t with kept := if took then t.answer? else t.kept, given := none }

/-- The services of a node, with the answer it gets. -/
def Thread.services (t : Thread) (svc : Services) : Services := { svc with resume := t.resume }

/-- A run of the node gets as far as `interrupt`: without an answer, it would raise there. -/
def Thread.takes (D : Deployment) (config : Config) (svc : Services) (t : Thread) (n : Node) :
    Bool :=
  match (superstep D config { svc with resume := none } n t.values t.world).result with
  | .error .graphInterrupt => (interruptKind n).isSome
  | _ => false

/-- How a node ends. -/
inductive NodeEnd
  | checkpointed (t : Thread)
  | interrupted (t : Thread)
  | raised (t : Thread)

/-- The node that is next runs. -/
def Thread.runNext (D : Deployment) (config : Config) (svc : Services) (t : Thread) (n : Node) :
    NodeEnd :=
  let o := superstep D config (t.services svc) n t.values t.world
  match o.result with
  | .ok (after, next) => .checkpointed
      { toGraphState := t.toGraphState.checkpoint n (t.services svc) o.final after next
        checkpointId := t.checkpointId + 1
        starter := t.source }
  | .error e =>
    if e = .graphInterrupt ∧ interruptKind n ≠ none ∧ t.resume = none then
      .interrupted { t with world := o.final, interrupt := some t.checkpointId }
    else .raised { t.ended (t.takes D config svc n) with world := o.final }

/-- The node that is next is stopped after some of its transactions. -/
def Thread.stopNext (D : Deployment) (config : Config) (svc : Services) (commits : ℕ) (t : Thread)
    (n : Node) : Option World :=
  (superstep D config (t.services svc) n t.values).stoppedAt t.world commits

section

variable {t : Thread} {took : Bool} {owner : Owner} {interruptId : ℕ} {value : Resume}

/-- An answer to the open interrupt goes with the call. -/
theorem Thread.put_answer (h : t.interrupt = some interruptId) :
    t.put owner (.resume interruptId value) = { t with given := some ⟨value, owner⟩ } := if_pos h

/-- The node gets an answer if there is one. -/
theorem Thread.resume_eq_none : t.resume = none ↔ t.answer? = none := Option.map_eq_none_iff

/-- An attempt that ends leaves the checkpoint and its interrupt. -/
@[simp] theorem Thread.ended_toGraphState : (t.ended took).toGraphState = t.toGraphState := rfl

/-- An attempt that ends leaves the checkpoint's number. -/
@[simp] theorem Thread.ended_checkpointId : (t.ended took).checkpointId = t.checkpointId := rfl

/-- It leaves the interrupt. -/
@[simp] theorem Thread.ended_interrupt : (t.ended took).interrupt = t.interrupt := rfl

/-- It leaves who started the work. -/
@[simp] theorem Thread.ended_starter : (t.ended took).starter = t.starter := rfl

/-- It gives up the answer that came with the call. -/
@[simp] theorem Thread.ended_given : (t.ended took).given = none := rfl

/-- What is left of the answer is the answer, or nothing. -/
theorem Thread.ended_answer? (t : Thread) (took : Bool) :
    (t.ended took).answer? = t.answer? ∨ (t.ended took).answer? = none := by
  cases took with
  | true => exact .inl (by simp [Thread.ended, Thread.answer?])
  | false =>
    cases hk : t.kept with
    | none => exact .inr (by simp [Thread.ended, Thread.answer?, hk])
    | some a => exact .inl (by simp [Thread.ended, Thread.answer?, hk])

/-- So an answer that is left is the one there was. -/
theorem Thread.ended_resume (h : (t.ended took).resume = some value) : t.resume = some value := by
  unfold Thread.resume at h ⊢
  rcases t.ended_answer? took with he | he <;> rw [he] at h
  · exact h
  · exact absurd h (by simp)

/-- Without an answer of its own, an attempt leaves the thread as it was. -/
theorem Thread.ended_false (h : t.given = none) : t.ended false = t := by
  cases t
  simp_all [Thread.ended]

end

end ExAgent.Session
