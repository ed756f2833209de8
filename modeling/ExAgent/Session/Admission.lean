import ExAgent.Session.Runtime

/-!
# The admission of API requests

`agent/admission/`: the requests of a host, the checks of a snapshot before input is stored
(`agent/session.py`), the transactions of `RequestStore`, and `next_invocation`, which decides from
a snapshot alone what `ainvoke` is given for a request. A request is one `ApiRequest` of the
session's user; authentication comes before it. The row of a request leaves out `next_attempt_at`
and `last_error`: when an attempt is made is up to the run, and the text of an error decides
nothing.

A transaction is one step here. `Stores.Requests` has the same transactions statement by statement,
on rows with all their columns, and says what the two have in common (`RequestStore.ofRow_claimed`,
`isCurrent_iff`, `sameIdentity_startTask`).
-/

namespace ExAgent.Session

open Lib ExAgent.Graph

/-! ## Requests -/

/-- The payload of a request: a `ResumeSignal` that is not the Executor's. -/
inductive ApiSignal
  | clarification (answer : String)
  | workflowSelection (d : WorkflowSelectionDecision)
  | executionMode (mode : ExecutionMode)
  | riskConfirmation (confirmed : Bool)
  | planReview (d : PlanReviewDecision)
  | cancelRequested (s : CancelRequestedSignal)
deriving DecidableEq

/-- The signal as the answer to an interrupt. -/
def ApiSignal.toResume : ApiSignal → Resume
  | .clarification answer => .clarification answer
  | .workflowSelection d => .workflowSelection d
  | .executionMode mode => .executionMode mode
  | .riskConfirmation confirmed => .riskConfirmation confirmed
  | .planReview d => .planReview d
  | .cancelRequested s => .cancelRequested s

/-- The kind of interrupt a signal answers. -/
def ApiSignal.expected : ApiSignal → InterruptKind
  | .clarification _ => .clarification
  | .workflowSelection _ => .workflowSelection
  | .executionMode _ => .executionMode
  | .riskConfirmation _ => .requestRiskConfirmation
  | .planReview _ => .planReview
  | .cancelRequested _ => .executorEvent

/-- `kind`, `interrupt_id` and `payload`: `START` has neither of the two, and the other kinds have
both. `CANCEL` is the kind of a cancellation, `RESUME` that of every other signal. -/
inductive ApiInput
  | start
  | resume (interruptId : ℕ) (signal : ApiSignal)
deriving DecidableEq

/-- `ApiRequest`. -/
structure ApiRequest where
  requestId : Uuid
  turn : TaskTurn
  input : ApiInput
deriving DecidableEq

/-- The states of a request. -/
inductive RequestState
  | pending
  | running
  | applied
  | rejected
  | blocked
  | compensated
deriving DecidableEq

/-- `ACTIVE`: the states in which a request keeps others out of its session. -/
def RequestState.isActive : RequestState → Bool
  | .pending | .running | .blocked => true
  | .applied | .rejected | .compensated => false

/-- A row of `agent_api_requests`; its key is the request. -/
structure RequestRow where
  command : ApiRequest
  targetNode : Node
  baseCheckpointId : ℕ
  state : RequestState := .pending
  attempts : ℕ := 0

/-- What the services raise. -/
inductive ServiceError
  | sessionConflict (message : String)
  | sessionBusy (activeTaskId : Uuid) (message : String)
  | unsafeRecovery (message : String)
  | lookupError (message : String)
deriving DecidableEq

/-- The host of a session: the graph's deployment, and the settings of `AdmissionService`. -/
structure Host where
  deployment : Deployment
  sessionId : Uuid
  /-- `ApiRequest.fingerprint`. -/
  fingerprint : ApiRequest → Sha256
  maxAttempts : ℕ

/-- `RequestRecord.action`. -/
def RequestRow.action (H : Host) (row : RequestRow) : ApiAction where
  requestId := row.command.requestId
  taskId := row.command.turn.activeTaskId
  targetNode := row.targetNode
  fingerprint := H.fingerprint row.command

/-! ## Snapshots -/

/-- `validate_user_decision`. -/
def validateUserDecision (boundary : Boundary) : ApiSignal → Except ServiceError Unit
  | .planReview d =>
    if boundary.persisted.map PersistedPlan.planRevisionId ≠ some d.planRevisionId ∨
        boundary.persisted.map PersistedPlan.planRevisionNumber ≠ some d.planRevisionNumber ∨
        boundary.persisted.map PersistedPlan.publicPayloadHash ≠ some d.publicPayloadHash then
      .error (.sessionConflict "Plan decision is stale")
    else if d.decision = .approve ∧ boundary.risk.map RiskReview.level = some .high ∧
        d.riskAcknowledged = false then
      .error (.sessionConflict "Risk acknowledgement is required")
    else .ok ()
  | .workflowSelection d =>
    if boundary.proposalVersion ≠ some d.proposalVersion then
      .error (.sessionConflict "Workflow proposal is stale")
    else
      match d.workflowVersionId with
      -- Without a version a plan is made instead.
      | none => .ok ()
      | some versionId =>
        match boundary.candidates.find? fun c => c.workflowVersionId = versionId with
        | none => .error (.sessionConflict "Workflow candidate is stale")
        | some candidate =>
          if candidate.publicPayloadHash ≠ d.publicPayloadHash then
            .error (.sessionConflict "Workflow candidate is stale")
          else if candidate.risk.map RiskReview.level = some .high ∧ d.riskAcknowledged = false then
            .error (.sessionConflict "Risk acknowledgement is required")
          else .ok ()
  | _ => .ok ()

/-- `validate_start_snapshot`. -/
def validateStartSnapshot (D : Deployment) (before : Thread) (turn : TaskTurn) :
    Except ServiceError Bool :=
  if before.values.identity ≠ none ∧
      before.values.identity ≠ some (turn.userId, turn.projectId, turn.sessionId) then
    .error (.sessionConflict "Session ownership mismatch")
  else
    match before.values.taskRequests turn.activeTaskId with
    | some fingerprint =>
      if fingerprint ≠ D.fingerprint turn ∨
          before.values.activeTaskId ≠ some turn.activeTaskId then
        .error (.sessionConflict "Task ID reuse is forbidden")
      else .ok true
    | none =>
      if before.next ≠ none then .error (.sessionConflict "Session has unfinished work")
      else .ok false

/-- The task of a cancellation, which has to be the one of its turn. -/
def ApiSignal.cancels? : ApiSignal → Option Uuid
  | .cancelRequested s => some s.taskId
  | _ => none

/-- `validate_resume_snapshot`: the waiting node. -/
def validateResumeSnapshot (D : Deployment) (before : Thread) (turn : TaskTurn) (interruptId : ℕ)
    (signal : ApiSignal) : Except ServiceError Node :=
  if before.values.activeTaskId ≠ some turn.activeTaskId ∨
      before.values.taskRequests turn.activeTaskId ≠ some (D.fingerprint turn) then
    .error (.sessionConflict "Task identity mismatch")
  else
    match before.boundary? with
    | none => .error (.sessionConflict "Interrupt is stale")
    | some (name, id, boundary) =>
      -- The answer is to the interrupt that is shown, and of its kind.
      if id ≠ interruptId then .error (.sessionConflict "Interrupt is stale")
      else if boundary.kind ≠ signal.expected ∨ boundary.taskId ≠ some turn.activeTaskId then
        .error (.sessionConflict "Interrupt kind mismatch")
      else if signal.cancels? ≠ none ∧ signal.cancels? ≠ some turn.activeTaskId then
        .error (.sessionConflict "Cancel task identity mismatch")
      else
        match validateUserDecision boundary signal with
        | .error e => .error e
        | .ok _ => .ok name

/-- `accepted`. -/
def accepted (H : Host) (snapshot : Thread) (record : RequestRow) : Except ServiceError Bool :=
  match snapshot.values.apiReceipts record.command.requestId with
  | none => .ok false
  | some receipt =>
    if receipt ≠ ⟨record.command.turn.activeTaskId, H.fingerprint record.command⟩ then
      .error (.unsafeRecovery "API acceptance receipt identity mismatch")
    else .ok true

/-- `owns_pending`. -/
def OwnsPending (snapshot : Thread) (record : RequestRow) : Prop :=
  snapshot.next ≠ none ∧ snapshot.interrupt = none ∧
    snapshot.values.invocationOwner = some (some (.api record.command.requestId))

instance (snapshot : Thread) (record : RequestRow) : Decidable (OwnsPending snapshot record) :=
  inferInstanceAs (Decidable (_ ∧ _))

/-- The owner of a checkpoint when it is an Executor command. -/
def executorOwner? : Option (Option Owner) → Option Uuid
  | some (some (.executor commandId)) => some commandId
  | _ => none

/-- `next_invocation` for a request whose receipt is in the checkpoint. Another API input or
Executor event may already own the graph. -/
def continuation (snapshot : Thread) (record : RequestRow) : Except ServiceError (Option Input) :=
  if OwnsPending snapshot record then .ok (some .pending)
  else if snapshot.next ≠ none ∧ snapshot.interrupt = none ∧
      executorOwner? snapshot.values.invocationOwner = none then
    .error (.unsafeRecovery "Pending invocation owner is unknown")
  else .ok none

/-- `next_invocation` for a `START` without receipt. LangGraph can commit the input before the pure
`begin_task` succeeds. -/
def startInvocation (D : Deployment) (snapshot : Thread) (record : RequestRow) :
    Except ServiceError (Option Input) :=
  let turn := record.command.turn
  if snapshot.next = some .beginTask ∧ snapshot.values.turn = some turn then .ok (some .pending)
  else if snapshot.values.taskRequests turn.activeTaskId ≠ none then
    .error (.unsafeRecovery "Task started without this API receipt")
  else
    match validateStartSnapshot D snapshot turn with
    | .error e => .error e
    | .ok _ =>
      if snapshot.checkpointId ≠ record.baseCheckpointId then
        .error (.sessionConflict "Session changed after API admission")
      else .ok (some (.turn turn))

/-- `next_invocation` for a signal without receipt. Resume writes may have persisted before the pure
wait node returned. -/
def resumeInvocation (D : Deployment) (snapshot : Thread) (record : RequestRow) (interruptId : ℕ)
    (signal : ApiSignal) : Except ServiceError (Option Input) :=
  let turn := record.command.turn
  if snapshot.interrupt ≠ none then
    match validateResumeSnapshot D snapshot turn interruptId signal with
    | .error e => .error e
    | .ok name =>
      if name ≠ record.targetNode then
        .error (.sessionConflict "Input node changed after admission")
      else .ok (some (.resume interruptId signal.toResume))
  else if snapshot.next = some record.targetNode ∧
      snapshot.checkpointId = record.baseCheckpointId ∧
      snapshot.values.taskRequests turn.activeTaskId = some (D.fingerprint turn) then
    .ok (some .pending)
  else .error (.sessionConflict "Original interrupt is no longer available")

/-- `next_invocation`: what `ainvoke` is given, or `none` when there is nothing to invoke. -/
def nextInvocation (H : Host) (snapshot : Thread) (record : RequestRow) :
    Except ServiceError (Option Input) :=
  match accepted H snapshot record with
  | .error e => .error e
  | .ok true => continuation snapshot record
  | .ok false =>
    match record.command.input with
    | .start => startInvocation H.deployment snapshot record
    | .resume interruptId signal => resumeInvocation H.deployment snapshot record interruptId signal

/-- The checkpoint proves that the request is done: `accepted` and nothing to invoke. -/
def completed (H : Host) (snapshot : Thread) (record : RequestRow) : Bool :=
  match accepted H snapshot record, nextInvocation H snapshot record with
  | .ok true, .ok none => true
  | _, _ => false

/-! ## The transactions of `RequestStore` -/

/-- The rows the admission of a request reads and writes: the requests, the columns of a Task that
identify it, the Tasks with a failure cleanup, and the agent's tables. -/
structure Tables where
  requests : Table Uuid RequestRow := .empty
  turns : Table Uuid TaskTurn := .empty
  cleanups : List Uuid := []

/-- What `_admit_task` compares of a stored Task. -/
def sameIdentity (stored turn : TaskTurn) : Bool :=
  stored.userId = turn.userId ∧ stored.projectId = turn.projectId ∧
    stored.sessionId = turn.sessionId ∧ stored.userMessage = turn.userMessage ∧
    stored.currentInputMessageId = turn.currentInputMessageId

/-- A Task of the session that is not terminal. -/
def unfinishedTask? (w : World) : Option Uuid :=
  (w.tasks.entries.find? fun e => e.2.status.isTerminal = false).map Prod.fst

/-- The text of a `SessionBusyError` without one of its own. -/
def busyText (activeTaskId : Uuid) : String :=
  "Session is busy with task " ++ toString activeTaskId

/-- `_admit_task`: the Task columns and the tables afterwards. -/
def admitTask (tables : Tables) (w : World) (command : ApiRequest) :
    Except ServiceError (Table Uuid TaskTurn × World) :=
  let turn := command.turn
  let taskId := turn.activeTaskId
  if taskId ∈ tables.cleanups then
    .error (.sessionConflict "Task failure cleanup forbids new input")
  else
    match command.input with
    | .resume .. =>
      -- A resume needs its own Task, which is not finished.
      match w.tasks.get taskId, tables.turns.get taskId with
      | some task, some stored =>
        if sameIdentity stored turn = false then .error (.sessionConflict "Task identity mismatch")
        else if task.status.isTerminal then
          .error (.sessionConflict "Terminal Task cannot accept new input")
        else .ok (tables.turns, w)
      | _, _ => .error (.sessionConflict "Task identity mismatch")
    | .start =>
      match w.tasks.get taskId with
      | some _ => .error (.sessionConflict "Task ID already exists; reuse its request ID")
      | none =>
        -- A new Task needs a session without a lock and without an unfinished Task.
        match w.lock.map SessionLock.activeTaskId, unfinishedTask? w with
        | some active, _ => .error (.sessionBusy active (busyText active))
        | none, some active => .error (.sessionBusy active (busyText active))
        | none, none => .ok (tables.turns.insertIfAbsent taskId turn, w.accept taskId)

/-- The request that keeps the session, if any. -/
def activeRequest? (requests : Table Uuid RequestRow) : Option RequestRow :=
  (requests.entries.find? fun e => e.2.state.isActive = true).map Prod.snd

/-- `validate_command`. -/
def validateCommand (record : RequestRow) (command : ApiRequest) : Except ServiceError Unit :=
  if record.command ≠ command then
    .error (.sessionConflict "Request ID was reused with different input")
  else .ok ()

/-- `RequestStore.accept` of a request that has no row yet. -/
def storeAccept (tables : Tables) (w : World) (command : ApiRequest) (targetNode : Node)
    (baseCheckpointId : ℕ) : Except ServiceError (RequestRow × Tables × World) :=
  match activeRequest? tables.requests with
  | some active => .error (.sessionBusy active.command.turn.activeTaskId
      "Session has a pending API request")
  | none =>
    match admitTask tables w command with
    | .error e => .error e
    | .ok (turns, w) =>
      let row : RequestRow := { command, targetNode, baseCheckpointId }
      match tables.requests.insert command.requestId row with
      | none => .error (.sessionConflict "API admission conflicts with existing work")
      | some requests => .ok (row, { tables with requests, turns }, w)

/-- The node whose input a request is, if the snapshot takes it. -/
def targetOf (D : Deployment) (before : Thread) (command : ApiRequest) : Except ServiceError Node :=
  match command.input with
  | .start =>
    match validateStartSnapshot D before command.turn with
    | .error e => .error e
    | .ok true => .error (.sessionConflict "Task already started; reuse its request ID")
    | .ok false => .ok .beginTask
  | .resume interruptId signal =>
    match validateResumeSnapshot D before command.turn interruptId signal with
    | .error e => .error e
    | .ok target =>
      if target.isInput = false then .error (.sessionConflict "Unsupported input node")
      else .ok target

/-- `AdmissionService.accept`: the row, and the tables when it is a new one. -/
def accept (H : Host) (tables : Tables) (before : Thread) (command : ApiRequest) :
    Except ServiceError (RequestRow × Option (Tables × World)) :=
  match tables.requests.get command.requestId with
  | some existing =>
    match validateCommand existing command with
    | .error e => .error e
    | .ok _ => .ok (existing, none)
  | none =>
    match targetOf H.deployment before command with
    | .error e => .error e
    | .ok target =>
      match storeAccept tables before.world command target before.checkpointId with
      | .error e => .error e
      | .ok (row, after) => .ok (row, some after)

/-- The state of a request after `RequestStore.claim`. -/
def claimedState (H : Host) (tables : Tables) (row : RequestRow) : RequestState :=
  if row.command.turn.activeTaskId ∈ tables.cleanups then .blocked
  else if H.maxAttempts ≤ row.attempts then .blocked
  else .running

/-- `RequestStore.claim` of a request that is `PENDING` or `RUNNING`. -/
def claim (H : Host) (tables : Tables) (row : RequestRow) : RequestRow :=
  { row with
    state := claimedState H tables row
    attempts := if claimedState H tables row = .running then row.attempts + 1 else row.attempts }

/-- Writing a row back. -/
def Tables.withRow (tables : Tables) (row : RequestRow) : Tables :=
  { tables with requests := tables.requests.modifyAt row.command.requestId fun _ => row }

/-- `RequestStore.finish`: the attempt must not have been superseded. -/
def finish (tables : Tables) (record : RequestRow) (state : RequestState) :
    Except ServiceError Tables :=
  match tables.requests.get record.command.requestId with
  | none => .error (.lookupError "Unknown API request")
  | some row =>
    if (record.state ≠ .pending ∧ record.state ≠ .running) ∨ row.state ≠ record.state ∨
        row.attempts ≠ record.attempts then
      .error (.sessionConflict "API request attempt was superseded")
    else .ok (tables.withRow { row with state })

end ExAgent.Session
