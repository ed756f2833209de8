import ExAgent.Lib.History
import ExAgent.Session.Admission
import ExAgent.Session.Adapter

/-!
# A session as a system

API hosts and Worker replicas around one session: its thread, its requests and the agent's tables.
The session guard is mutual exclusion, so at most one of them is in the graph, and what a call reads
between two of its writes is what it wrote. A step is one transaction, one `ainvoke` taking its
input, one node, or the end of a call. The environment chooses the steps: which request is accepted,
executed or recovered, which command is delivered how often, what every service answers a node, and
where a call is cancelled or its process dies: before or after its `ainvoke` took its input, within
a node, or with the graph's work done and its own row not yet written. `execute` is the host's first
call as well as every later attempt of `RequestRecovery`.

The log is a history variable: the requests that were admitted, the `ainvoke` calls with the
snapshot they were decided on, and the checkpoints with the call they were made by.

A turn that is stored and not yet begun outlives the call that stored it, and so does an answer that
a failed attempt has left with its writes. `abandons` says at which steps that happens: the call is
in the graph, and it ends before the node that takes the input has returned.
-/

namespace ExAgent.Session

open Lib ExAgent.Graph

/-- Who has called the graph. -/
inductive Call
  | api (record : RequestRow)
  | executor (d : Delivery)

/-- The caller as an owner of pending nodes. -/
def Call.owner : Call → Owner
  | .api record => .api record.command.requestId
  | .executor d => .executor d.commandId

/-- The configuration of the caller's `ainvoke`. -/
def Call.config (H : Host) : Call → Config
  | .api record => ⟨H.sessionId, some (record.action H)⟩
  | .executor _ => ⟨H.sessionId, none⟩

/-- Where a call stands. -/
inductive Phase
  /-- The guard is held; the snapshot has not been read. -/
  | deciding
  /-- `ainvoke` has taken its input and runs nodes. -/
  | looping
  /-- `ainvoke` has returned, or was not needed. -/
  | returned
  /-- `ainvoke` has raised. -/
  | raised
deriving DecidableEq

/-- What happened, for the theorems. -/
inductive Entry
  | admitted (row : RequestRow)
  /-- `ainvoke` was called, on this snapshot. -/
  | invoked (call : Call) (input : Input) (snapshot : Thread)
  /-- A node completed in a call: the answer it was given, and the session before and after. -/
  | checkpointed (call : Call) (n : Node) (resume : Option Resume) (before after : SessionState)
  | delivered (d : Delivery) (e : DeliveryEnd)

/-- The state of a session. -/
structure System where
  thread : Thread := {}
  tables : Tables := {}
  /-- The call that holds the guard. -/
  running : Option (Call × Phase) := none
  log : List Entry := []

/-- The steps of a session. -/
inductive Action
  | accept (command : ApiRequest)
  /-- `execute` up to its claim. -/
  | execute (requestId : Uuid)
  /-- A delivery takes the guard. -/
  | deliver (d : Delivery)
  /-- The call reads its snapshot, decides, and gives `ainvoke` its input. -/
  | decide
  /-- The next node of the graph runs in the call. -/
  | node (svc : Services)
  /-- The call's `ainvoke` is cancelled within a node, as by `invocation_timeout`, before the node
  has taken its answer or after that. -/
  | timeout (svc : Services) (commits : ℕ) (took : Bool)
  /-- The call writes its result and gives the guard up. -/
  | finish
  /-- The process of the call dies between two nodes, or outside the graph. -/
  | die
  /-- The process of the call dies within a node. -/
  | stop (svc : Services) (commits : ℕ)
  /-- `capture_api` finds a blocked request completed. -/
  | resolveApplied (requestId : Uuid)
  /-- A failure cleanup of a Task begins. -/
  | cleanup (taskId : Uuid)

/-! ## Calls -/

/-- The state of a request whose attempt has failed. -/
def retryState (H : Host) (record : RequestRow) : RequestState :=
  if H.maxAttempts ≤ record.attempts then .blocked else .pending

/-- The state of a request whose `ainvoke` has returned. -/
def returnedState (H : Host) (after : Thread) (record : RequestRow) : RequestState :=
  match accepted H after record with
  | .error _ | .ok false => .blocked
  | .ok true =>
    match nextInvocation H after record with
    | .ok none => .applied
    | .ok (some _) | .error (.unsafeRecovery _) => .blocked
    | .error _ => retryState H record

/-- `RequestStore.finish` at the end of a call. -/
def System.settle (s : System) (record : RequestRow) (state : RequestState) : System :=
  match Session.finish s.tables record state with
  | .ok tables => { s with tables, running := none }
  | .error _ => { s with running := none }

/-- `AdmissionService.execute` up to the claim. The last allowed invocation may have finished before
the process died, and then a read-only proof costs no attempt. -/
def System.execute (H : Host) (s : System) (requestId : Uuid) : System :=
  match s.tables.requests.get requestId with
  | none => s
  | some row =>
    if row.state ≠ .pending ∧ row.state ≠ .running then s
    else if H.maxAttempts ≤ row.attempts ∧ completed H s.thread row = true then
      s.settle row .applied
    else
      { s with
        tables := s.tables.withRow (claim H s.tables row)
        running := if claimedState H s.tables row = .running
          then some (.api (claim H s.tables row), .deciding) else none }

/-- `AdmissionService.accept`. -/
def System.accept (H : Host) (s : System) (command : ApiRequest) : System :=
  match Session.accept H s.tables s.thread command with
  | .ok (row, some (tables, w)) =>
    { s with
      tables
      thread := { s.thread with world := w }
      log := s.log ++ [.admitted row] }
  | .ok (_, none) | .error _ => s

/-- `ainvoke` takes its input and begins to run. -/
def System.invoke (s : System) (call : Call) (input : Input) : System :=
  { s with
    thread := s.thread.put call.owner input
    running := some (call, .looping)
    log := s.log ++ [.invoked call input s.thread] }

/-- A call decides on the snapshot. -/
def System.decide (H : Host) (s : System) : Call → System
  | .api record =>
    match nextInvocation H s.thread record with
    | .error (.unsafeRecovery _) => s.settle record .blocked
    | .error (.lookupError _) => s.settle record (retryState H record)
    | .error (.sessionConflict _) | .error (.sessionBusy _ _) => s.settle record .rejected
    | .ok none => { s with running := some (.api record, .returned) }
    | .ok (some input) => s.invoke (.api record) input
  | .executor d =>
    match decideDelivery d s.thread with
    | .inl e => { s with running := none, log := s.log ++ [.delivered d e] }
    | .inr input => s.invoke (.executor d) input

/-- `ainvoke` raises. A host writes that down; the exception of a delivery goes to the
dispatcher. -/
def System.fail (s : System) (t : Thread) : Call → System
  | .api record => { s with thread := t, running := some (.api record, .raised) }
  | .executor _ => { s with thread := t, running := none }

/-- A node runs in a call. -/
def System.node (H : Host) (s : System) (svc : Services) (call : Call) (n : Node) : System :=
  match s.thread.runNext H.deployment (call.config H) svc n with
  | .checkpointed t =>
    { s with
      thread := t
      running := some (call, if t.next = none then .returned else .looping)
      log := s.log ++ [.checkpointed call n s.thread.resume s.thread.values t.values] }
  | .interrupted t => { s with thread := t, running := some (call, .returned) }
  | .raised t => s.fail t call

/-- A call ends. -/
def System.finish (H : Host) (s : System) : Call → Phase → Option System
  | .api record, .returned => some (s.settle record (returnedState H s.thread record))
  | .api record, .raised => some (s.settle record (retryState H record))
  | .executor d, .returned => some
      { s with running := none, log := s.log ++ [.delivered d (deliveryEnd d s.thread)] }
  | _, _ => none

/-- `RequestStore.resolve_applied`, as `capture_api` calls it. -/
def System.resolveApplied (H : Host) (s : System) (requestId : Uuid) : System :=
  match s.tables.requests.get requestId with
  | none => s
  | some row =>
    if row.state = .blocked ∧ row.command.turn.activeTaskId ∉ s.tables.cleanups ∧
        completed H s.thread row = true then
      { s with tables := s.tables.withRow { row with state := .applied } }
    else s

/-! ## Steps -/

/-- The call that is in the graph, and the node that is next for it. -/
def System.looping? (s : System) : Option (Call × Node) :=
  match s.running, s.thread.next with
  | some (call, .looping), some n => some (call, n)
  | _, _ => none

/-- The node that runs in the call takes the answer to its interrupt. -/
def System.takes (H : Host) (s : System) (svc : Services) : Bool :=
  s.looping?.any fun p => s.thread.takes H.deployment (p.1.config H) svc p.2

/-- A step under the guard, when no call holds it. -/
def System.unheld (s : System) (s' : System) : Option System :=
  if s.running = none then some s' else none

/-- One step of a session. -/
def step (H : Host) (s : System) : Action → Option System
  | .accept command => s.unheld (s.accept H command)
  | .execute requestId => s.unheld (s.execute H requestId)
  | .deliver d => s.unheld { s with running := some (.executor d, .deciding) }
  | .resolveApplied requestId => s.unheld (s.resolveApplied H requestId)
  -- The cleanup forbids new input from here on.
  | .cleanup taskId => s.unheld
      { s with tables := { s.tables with cleanups := taskId :: s.tables.cleanups } }
  | .decide =>
    match s.running with
    | some (call, .deciding) => some (s.decide H call)
    | _ => none
  | .node svc => s.looping?.map fun p => s.node H svc p.1 p.2
  | .timeout svc commits took => s.looping?.bind fun p =>
      -- The node that reaches its deadline has made some of its commits.
      (s.thread.stopNext H.deployment (p.1.config H) svc commits p.2).map fun w =>
        s.fail { s.thread.ended (took && s.takes H svc) with world := w } p.1
  | .stop svc commits => s.looping?.bind fun p =>
      (s.thread.stopNext H.deployment (p.1.config H) svc commits p.2).map fun w =>
        { s with thread := { s.thread.ended false with world := w }, running := none }
  | .finish => s.running.bind fun p => s.finish H p.1 p.2
  | .die => s.running.map fun _ => { s with thread := s.thread.ended false, running := none }

/-- A session as a transition system. -/
def session (H : Host) : Machine System Action := ⟨fun s => s = {}, step H⟩

/-! ## Inputs that are left behind -/

/-- Whose input stays stored when the call that is in the graph ends: that of a turn which has not
begun, or of the answer that the attempt had taken. -/
def System.openInput? (s : System) (took : Bool) : Option Owner :=
  match s.running with
  | some (_, .looping) =>
    if s.thread.next = some .beginTask then s.thread.starter
    else if took then s.thread.answer?.map Answer.giver
    else none
  | _ => none

/-- A node that neither completes nor interrupts. -/
def NodeEnd.isRaised : NodeEnd → Bool
  | .raised _ => true
  | .checkpointed _ | .interrupted _ => false

/-- The caller whose input a step leaves behind: the call ends by a death, a cancellation or an
exception before the node that takes the input has returned. -/
def abandons (H : Host) (s : System) : Action → Option Owner
  | .die | .stop _ _ => s.openInput? false
  | .timeout svc _ took => s.openInput? (took && s.takes H svc)
  | .node svc => s.looping?.bind fun p =>
      if (s.thread.runNext H.deployment (p.1.config H) svc p.2).isRaised = true then
        s.openInput? (s.takes H svc)
      else none
  | _ => none

end ExAgent.Session
