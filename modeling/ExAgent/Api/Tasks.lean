import ExAgent.Lib.Isolation
import ExAgent.Stores.System

/-!
# The Task routes

`ex_agent/api/routers/tasks.py`: `create_task`, `resume_task` and `cancel_task`, down to the point
where the request has a row. The route reads the Task, builds an `ApiRequest` from the body and the
row, and hands it to `AdmissionService.handle`, which looks for a row of the request, checks the
checkpoint of the session and stores the request (`RequestStore.accept`). A new request, or one that
is still `PENDING` or `RUNNING`, is then executed; what the execution does is not part of a route
and the answer ends there (`Response.executes`).

A route is a transaction in the sense of `Lib.Txn`, so that routes of many users can be run
statement by statement. The caller is authenticated and holds the session guard while it is
admitted: `guard.hold` is left out, with the error of a guard that cannot be had. The settings are
those of the service and stay what they are. Bodies are those that their contracts accept.
-/

namespace ExAgent.Api

open Lib
open ExAgent.Graph (TaskTurn TaskStatus Deployment)
open Session (ApiRequest ApiInput ApiSignal ServiceError Thread)
open Stores (Db Row RowKey RequestRow StoreError TaskRow RequestStore.replay)

/-! ## Texts of JSON values -/

/-- The hexadecimal digits of a number, filled up to a width. -/
def hexDigits (width n : ℕ) : List Char :=
  let digits := Nat.toDigits 16 n
  List.replicate (width - digits.length) '0' ++ digits

/-- A JSON string without characters to escape. -/
def quoted (text : List Char) : String := String.ofList ('"' :: text ++ ['"'])

/-- `str(uuid)`. -/
def uuidText (id : Uuid) : List Char :=
  let d := hexDigits 32 id
  d.take 8 ++ '-' :: (d.drop 8).take 4 ++ '-' :: (d.drop 12).take 4 ++
    '-' :: (d.drop 16).take 4 ++ '-' :: d.drop 20

/-- A member of a JSON object. -/
def Dict.get (d : Dict) (key : String) : Option String :=
  (d.members.find? fun m => m.1 = key).map Prod.snd

/-! ## Bodies, responses and settings -/

/-- `TaskCreateRequest`, with the path of the request. -/
structure TaskCreateRequest where
  projectId : String
  sessionId : Uuid
  taskId : Uuid
  inputMessageId : Uuid
  content : String
  idempotencyKey : String
deriving DecidableEq

/-- `ResumeRequest`, with the path of the request. The signal is any but the Executor's and the
cancellation: those `ApiRequest` does not take as a `RESUME`. -/
structure ResumeRequest where
  taskId : Uuid
  idempotencyKey : String
  signal : ApiSignal
  isResume : signal.cancels? = none
deriving DecidableEq

/-- `CancelRequest`, with the path of the request. -/
structure CancelRequest where
  taskId : Uuid
  idempotencyKey : String
  reason : Option String
deriving DecidableEq

/-- A command of a user. -/
inductive Body
  | create (body : TaskCreateRequest)
  | resume (body : ResumeRequest)
  | cancel (body : CancelRequest)
deriving DecidableEq

/-- The idempotency key of a body. -/
def Body.idempotencyKey : Body → String
  | .create body => body.idempotencyKey
  | .resume body => body.idempotencyKey
  | .cancel body => body.idempotencyKey

/-- The Task of a body. -/
def Body.taskId : Body → Uuid
  | .create body => body.taskId
  | .resume body => body.taskId
  | .cancel body => body.taskId

/-- `detail` of an error. -/
inductive Detail
  | text (message : String)
  | activeTask (taskId : Uuid)
deriving DecidableEq

/-- An error response. -/
structure HttpError where
  status : ℕ
  detail : Detail
deriving DecidableEq

/-- What comes of a route. -/
inductive Response
  /-- 202 with a `TaskAcceptedResponse`. -/
  | accepted (taskId : Uuid) (status : TaskStatus)
  /-- Another status. -/
  | error (e : HttpError)
  /-- The request has a row that is not closed: `handle` executes it. -/
  | executes (requestId : Uuid)
deriving DecidableEq

/-- The deployment of the API. -/
structure Settings where
  /-- The settings of the stores. -/
  stores : Stores.Settings
  /-- The deployment of the graph. -/
  deployment : Deployment
  /-- `executor_runtime_profile`. -/
  runtimeProfile : String
  /-- `uuid5` in `NAMESPACE_URL`. -/
  uuid5 : String → Uuid
  /-- The number of an interrupt in the checkpoints, by the text of its id. -/
  interruptNumber : String → ℕ

/-- What the routes read and write: the tables, and the checkpoint of each session. -/
structure World where
  db : Db
  threads : Uuid → Thread

/-- The rows that can be locked. -/
def World.row (w : World) (k : RowKey) : Option Row := w.db.row k

/-- A statement sequence of a route. -/
abbrev Route := Txn World RowKey Row Response

/-! ## Requests from bodies -/

/-- `_request_id`. -/
def requestId (S : Settings) (idempotencyKey : String) : Uuid :=
  S.uuid5 ("ex-agent/api/" ++ idempotencyKey)

/-- 409 with a text. -/
def conflict (message : String) : HttpError := ⟨409, .text message⟩

/-- `required_interrupt_id`. -/
def requiredInterruptId (S : Settings) (interrupt : Option Dict) : Except HttpError ℕ :=
  match interrupt with
  | none => .error (conflict "Task is not awaiting input")
  | some interrupt =>
    match Dict.get interrupt "interrupt_id" with
    | none => .error (conflict "Task interrupt is not resumable")
    | some text =>
      -- A JSON string starts with a quotation mark; the empty one is false.
      if text.startsWith "\"" = false ∨ text = "\"\"" then
        .error (conflict "Task interrupt is not resumable")
      else .ok (S.interruptNumber text)

/-- `type` of a signal. -/
def signalType : ApiSignal → String
  | .clarification _ => "\"CLARIFICATION\""
  | .workflowSelection _ => "\"WORKFLOW_SELECTION\""
  | .executionMode _ => "\"EXECUTION_MODE\""
  | .riskConfirmation _ => "\"REQUEST_RISK_CONFIRMATION\""
  | .planReview _ => "\"PLAN_REVIEW\""
  | .cancelRequested _ => "\"CANCEL_REQUESTED\""

/-- The members that `validate_signal_against_interrupt` compares, with the text of the error. -/
def comparedMembers : ApiSignal → List (String × String) × String
  | .planReview d =>
    ([("plan_revision_id", quoted (uuidText d.planRevisionId)),
      ("plan_revision_number", toString d.planRevisionNumber),
      ("public_payload_hash", quoted (hexDigits 64 d.publicPayloadHash))],
      "Plan decision is stale")
  | .workflowSelection d =>
    ([("proposal_version", toString d.proposalVersion)], "Workflow proposal is stale")
  | _ => ([], "")

/-- `validate_signal_against_interrupt`. -/
def validateSignalAgainstInterrupt (interrupt : Option Dict) (signal : ApiSignal) :
    Except HttpError Unit :=
  match interrupt with
  | none => .error (conflict "Task is not awaiting input")
  | some interrupt =>
    if Dict.get interrupt "kind" ≠ some (signalType signal) then
      .error (conflict "Resume signal does not match the current interrupt")
    else
      let (members, message) := comparedMembers signal
      if members.any fun m => Dict.get interrupt m.1 ≠ some m.2 then .error (conflict message)
      else .ok ()

/-- `task_turn`. -/
def taskTurn (S : Settings) (taskId : Uuid) (task : TaskRow) : TaskTurn where
  userId := task.userId
  projectId := task.projectId
  sessionId := task.sessionId
  activeTaskId := taskId
  currentInputMessageId := task.inputMessageId
  userMessage := task.userMessage
  runtimeProfile := S.runtimeProfile

/-- The request of `create_task`. -/
def createCommand (S : Settings) (userId : String) (body : TaskCreateRequest) : ApiRequest where
  requestId := requestId S body.idempotencyKey
  turn :=
    { userId
      projectId := body.projectId
      sessionId := body.sessionId
      activeTaskId := body.taskId
      currentInputMessageId := body.inputMessageId
      userMessage := body.content
      runtimeProfile := S.runtimeProfile }
  input := .start

/-- The request of `resume_task`. -/
def resumeCommand (S : Settings) (task : TaskRow) (body : ResumeRequest) :
    Except HttpError ApiRequest := do
  validateSignalAgainstInterrupt task.currentInterrupt body.signal
  let interruptId ← requiredInterruptId S task.currentInterrupt
  return ⟨requestId S body.idempotencyKey, taskTurn S body.taskId task,
    .resume interruptId body.signal⟩

/-- The request of `cancel_task`. -/
def cancelCommand (S : Settings) (task : TaskRow) (body : CancelRequest) :
    Except HttpError ApiRequest := do
  if task.executionId = none then
    .error (conflict "Task has no active Executor execution")
  let interruptId ← requiredInterruptId S task.currentInterrupt
  return ⟨requestId S body.idempotencyKey, taskTurn S body.taskId task,
    .resume interruptId (.cancelRequested ⟨body.taskId, body.reason⟩)⟩

section Commands

variable {S : Settings} {task : TaskRow} {command : ApiRequest}

/-- When `resume_task` can build its request. -/
theorem resumeCommand_eq_ok {body : ResumeRequest} :
    resumeCommand S task body = .ok command ↔
      validateSignalAgainstInterrupt task.currentInterrupt body.signal = .ok () ∧
        ∃ interruptId, requiredInterruptId S task.currentInterrupt = .ok interruptId ∧
          command = ⟨requestId S body.idempotencyKey, taskTurn S body.taskId task,
            .resume interruptId body.signal⟩ := by
  unfold resumeCommand
  cases validateSignalAgainstInterrupt task.currentInterrupt body.signal with
  | error e => simp [bind, Except.bind]
  | ok _ =>
    cases requiredInterruptId S task.currentInterrupt with
    | error e => simp [bind, Except.bind]
    | ok interruptId => simp [bind, Except.bind, pure, Except.pure, eq_comm]

/-- When `cancel_task` can build its request. -/
theorem cancelCommand_eq_ok {body : CancelRequest} :
    cancelCommand S task body = .ok command ↔
      task.executionId ≠ none ∧
        ∃ interruptId, requiredInterruptId S task.currentInterrupt = .ok interruptId ∧
          command = ⟨requestId S body.idempotencyKey, taskTurn S body.taskId task,
            .resume interruptId (.cancelRequested ⟨body.taskId, body.reason⟩)⟩ := by
  unfold cancelCommand
  cases hexecution : task.executionId with
  | none => simp [bind, Except.bind]
  | some executionId =>
    cases requiredInterruptId S task.currentInterrupt with
    | error e => simp [bind, Except.bind]
    | ok interruptId => simp [bind, Except.bind, pure, Except.pure, eq_comm]

end Commands

/-! ## Admission -/

/-- The response to an exception of `handle`. -/
def ofServiceError : ServiceError → HttpError
  | .sessionBusy activeTaskId _ => ⟨423, .activeTask activeTaskId⟩
  | .sessionConflict message => conflict message
  | .unsafeRecovery _ => ⟨500, .text "Internal Server Error"⟩
  | .lookupError _ => ⟨500, .text "Internal Server Error"⟩

/-- The response to an exception of the store. -/
def ofStoreError : StoreError → HttpError
  | .sessionBusy activeTaskId _ => ⟨423, .activeTask activeTaskId⟩
  | .sessionConflict message => conflict message
  | _ => ⟨500, .text "Internal Server Error"⟩

/-- `last_error or …`. -/
def errorText (lastError : Option String) (default : String) : String :=
  match lastError with
  | some text => if text = "" then default else text
  | none => default

/-- `required_task` and `task_accepted_response`. -/
def acceptedTask (taskId : Uuid) : Route :=
  .select fun w =>
    match w.db.tasks.get taskId with
    | none => .ret (.error ⟨404, .text "Task not found"⟩)
    | some task => .ret (.accepted taskId task.status)

/-- The end of `handle` and `admit` for a request with a row. -/
def answered (taskId : Uuid) (record : RequestRow) : Route :=
  match record.state with
  | .applied => acceptedTask taskId
  | .rejected | .compensated =>
    .ret (.error (conflict (errorText record.lastError "Agent request was rejected")))
  | .blocked =>
    .ret (.error ⟨503, .text (errorText record.lastError "Agent request recovery is blocked")⟩)
  | .pending | .running => .ret (.executes record.command.requestId)

/-- The same for what the store returned. -/
def answeredResult (taskId : Uuid) : Stores.Result → Route
  | .error e => .ret (.error (ofStoreError e))
  | .ok (.request record) => answered taskId record
  | .ok _ => .ret (.error ⟨500, .text "Internal Server Error"⟩)

/-- `checkpoint_id`: a session that has not started has none. -/
def checkpointId (thread : Thread) : Option ℕ :=
  if thread.checkpointId = 0 then none else some thread.checkpointId

/-- `admit`, with `AdmissionService.accept`, `RequestStore.get` and `RequestStore.accept`, under a
session guard that is held. -/
def admitCommand (S : Settings) (now : Time) (command : ApiRequest) : Route :=
  let taskId := command.turn.activeTaskId
  .select fun w =>
    match w.db.requests.get command.requestId with
    | some existing => answeredResult taskId (RequestStore.replay S.stores existing command)
    | none => .select fun w =>
      let before := w.threads command.turn.sessionId
      match Session.targetOf S.deployment before command with
      | .error e => .ret (.error (ofServiceError e))
      | .ok target =>
        (Stores.RequestStore.accept S.stores command target (checkpointId before) now).within
          World.db (fun w db => { w with db }) (fun _ => .executes command.requestId)
          (answeredResult taskId)

/-- `owned_task`. -/
def ownedTask (taskId : Uuid) (userId : String) (next : TaskRow → Route) : Route :=
  .select fun w =>
    match w.db.tasks.get taskId with
    | none => .ret (.error ⟨404, .text "Task not found"⟩)
    | some task =>
      if task.userId ≠ userId then .ret (.error ⟨404, .text "Task not found"⟩) else next task

/-- A request that a route could build, or its error. -/
def admitOr (S : Settings) (now : Time) : Except HttpError ApiRequest → Route
  | .error e => .ret (.error e)
  | .ok command => admitCommand S now command

/-- `create_task`, `resume_task` and `cancel_task`. -/
def post (S : Settings) (userId : String) (now : Time) : Body → Route
  | .create body => admitCommand S now (createCommand S userId body)
  | .resume body =>
    ownedTask body.taskId userId fun task => admitOr S now (resumeCommand S task body)
  | .cancel body =>
    ownedTask body.taskId userId fun task => admitOr S now (cancelCommand S task body)

end ExAgent.Api
