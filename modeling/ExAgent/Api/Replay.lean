import ExAgent.Api.Tasks
import ExAgent.Graph.Guarantees
import ExAgent.Stores.Admission

/-!
# Sending a command again

A user who sends the same body again should get the same answer and change nothing. The request id
is made from the idempotency key alone, and a row with that id is answered from the row when the two
requests are equal. The request of a `RESUME` or `CANCEL` is built from the Task as it is now,
though: the route wants an open interrupt and puts its id into the request. So these two are
replayed exactly as long as the Task is still at the interrupt that the request answered, and a
`START` always; and all of them only when the request was applied (`replayed_iff`).

Both calls are made under the same settings, and each of them gets the guard of its session.
-/

namespace ExAgent.Api

open Lib
open ExAgent.Graph (TaskTurn TaskStatus)
open Session (ApiRequest ApiInput ApiSignal RequestState)
open Stores (Db TaskRow RequestRow Op State stores Commit RequestStore.sameIdentity)

/-! ## Admitted requests stay -/

section Admitted

variable {S : Stores.Settings} {s : State}

/-- The columns of a Task that identify it are those of the turn. -/
def Identified (db : Db) (turn : TaskTurn) : Prop :=
  ∃ task, db.tasks.get turn.activeTaskId = some task ∧ RequestStore.sameIdentity task turn = true

/-- No commit changes the columns that identify a Task. -/
theorem identified_commit {op : Op} {held : List Stores.RowKey} {result : Stores.Result}
    {db db' : Db} (h : Commit S op held result db db') {turn : TaskTurn}
    (hid : Identified db turn) : Identified db' turn := by
  obtain ⟨task, htask, hsame⟩ := hid
  -- What is left of `sameIdentity` after an update of other columns is the same comparison.
  have hkept : ∀ task' : TaskRow, db'.tasks.get turn.activeTaskId = some task' →
      task'.userId = task.userId → task'.projectId = task.projectId →
      task'.sessionId = task.sessionId → task'.userMessage = task.userMessage →
      task'.inputMessageId = task.inputMessageId → Identified db' turn := by
    intro task' h' h₁ h₂ h₃ h₄ h₅
    refine ⟨task', h', ?_⟩
    simpa only [RequestStore.sameIdentity, h₁, h₂, h₃, h₄, h₅] using hsame
  cases h.task_fate turn.activeTaskId with
  | same heq => exact ⟨task, heq.trans htask, hsame⟩
  | started hnone hnew => exact absurd (htask.symm.trans hnone) (by simp)
  | bound htask' hnew =>
    obtain rfl := Option.some.inj (htask.symm.trans htask')
    exact hkept _ hnew rfl rfl rfl rfl rfl
  | settled hop hid hrow htask' hopen hnew =>
    obtain rfl := Option.some.inj (htask.symm.trans htask')
    exact hkept _ hnew rfl rfl rfl rfl rfl
  | changed htask' hnew hchange =>
    obtain rfl := Option.some.inj (htask.symm.trans htask')
    cases hchange <;> exact hkept _ hnew rfl rfl rfl rfl rfl

/-- What stays of an admitted request: a row with its command and fingerprint, and its Task. -/
structure Recorded (S : Stores.Settings) (db : Db) (command : ApiRequest) : Prop where
  row : ∃ row, db.requests.get command.requestId = some row ∧ row.command = command ∧
    row.fingerprint = S.fingerprint command
  task : Identified db command.turn

/-- The commit of `accept` records the request. -/
theorem recorded_accept {command : ApiRequest} {node : Graph.Node} {base : Option ℕ} {now : Time}
    {held : List Stores.RowKey} {result : Stores.Result} {db db' : Db}
    (h : Commit S (.accept command node base now) held result db db') :
    Recorded S db' command := by
  -- The row is the last thing that is inserted; the Task is there before or comes with it.
  have hrecorded : ∀ {db₁ : Db},
      db₁.insertRequest command.requestId (Stores.RequestStore.admitted S command node base now) =
        some db' → Identified db₁ command.turn → Recorded S db' command := by
    intro db₁ hinsert hid
    obtain ⟨-, -, hget, heq⟩ := Db.insertRequest_spec hinsert
    refine ⟨⟨_, by rw [hget, if_pos rfl], rfl, rfl⟩, ?_⟩
    obtain ⟨task, htask, hsame⟩ := hid
    exact ⟨task, by rw [heq]; exact htask, hsame⟩
  generalize hop : Op.accept command node base now = op at h
  cases h with
  | start hinput hdb =>
    obtain ⟨rfl, rfl, rfl, rfl⟩ := Op.accept.inj hop
    obtain ⟨db₁, hstart, hinsert⟩ := Option.bind_eq_some_iff.mp hdb
    obtain ⟨-, hget, -⟩ := Stores.insertStart_spec hstart
    refine hrecorded hinsert ⟨_, by rw [hget, if_pos rfl], ?_⟩
    simp [RequestStore.sameIdentity, Stores.RequestStore.startTask]
  | resume hinput hheld htask hsame hopen hdb =>
    obtain ⟨rfl, rfl, rfl, rfl⟩ := Op.accept.inj hop
    exact hrecorded hdb ⟨_, htask, hsame⟩
  | request hid hheld hrow hchange => cases hchange <;> cases hop
  | cleanup hheld hrow hchange => cases hchange <;> cases hop
  | task hheld htask hchange hlocks => cases hchange <;> cases hop
  | _ => cases hop

/-- Every admitted request stays recorded. -/
theorem recorded_reachable (hr : (stores S).Reachable s) {e : Entry Op Stores.Result}
    (he : e ∈ s.history) {command : ApiRequest} {node : Graph.Node} {base : Option ℕ} {now : Time}
    (hop : e.op = .accept command node base now) : Recorded S s.db command := by
  refine Stores.commits_invariant (I := fun db history => ∀ e ∈ history, ∀ command node base now,
    e.op = .accept command node base now → Recorded S db command) ?_ ?_ hr e he command node base
    now hop
  · simp
  · intro e held db db' history ih _ hcommit e' he' command node base now hop
    rcases List.mem_append.mp he' with he' | he'
    · obtain ⟨⟨row, hrow, hcommand, hfingerprint⟩, htask⟩ := ih e' he' command node base now hop
      obtain ⟨row', hrow', hevolved⟩ := hcommit.evolved hrow
      exact ⟨⟨row', hrow', hevolved.command.trans hcommand,
        hevolved.fingerprint.trans hfingerprint⟩, identified_commit hcommit htask⟩
    · obtain rfl := List.mem_singleton.mp he'
      rw [hop] at hcommit
      exact recorded_accept hcommit

end Admitted

/-! ## The same body again -/

/-- The request that a route builds from a body and a Task. -/
def commandOf (S : Settings) (userId : String) (task : TaskRow) :
    Body → Except HttpError ApiRequest
  | .create body => .ok (createCommand S userId body)
  | .resume body =>
    if task.userId ≠ userId then .error ⟨404, .text "Task not found"⟩ else resumeCommand S task body
  | .cancel body =>
    if task.userId ≠ userId then .error ⟨404, .text "Task not found"⟩ else cancelCommand S task body

/-- A body of the user was admitted in the course of a run: a route built the request from the body
and the Task as it was then, and the store committed it. -/
def WasAdmitted (S : Settings) (s : State) (userId : String) (body : Body) (command : ApiRequest) :
    Prop :=
  ∃ task e node base now, commandOf S userId task body = .ok command ∧ e ∈ s.history ∧
    e.op = .accept command node base now

/-- Sent again, the body is accepted and changes nothing. -/
def Replayed (S : Settings) (userId : String) (body : Body) (w : World) : Prop :=
  ∀ now, ∃ status,
    (post S userId now body).exec World.row w = (.accepted body.taskId status, w)

/-- The Task is still at the interrupt that a request answered. -/
def StillOpen (S : Settings) (task : TaskRow) (command : ApiRequest) : Body → Prop
  | .create _ => True
  | .resume body =>
    validateSignalAgainstInterrupt task.currentInterrupt body.signal = .ok () ∧
      ∃ interruptId, requiredInterruptId S task.currentInterrupt = .ok interruptId ∧
        command.input = .resume interruptId body.signal
  | .cancel body =>
    task.executionId ≠ none ∧
      ∃ interruptId, requiredInterruptId S task.currentInterrupt = .ok interruptId ∧
        command.input = .resume interruptId (.cancelRequested ⟨body.taskId, body.reason⟩)

section Again

variable {S : Settings} {userId : String} {w : World} {command : ApiRequest} {now : Time}

/-- What the store answers for a request that has a row. -/
theorem replay_eq {S : Stores.Settings} {row : RequestRow} {command' : ApiRequest}
    (hcommand : row.command = command) (hfingerprint : row.fingerprint = S.fingerprint command) :
    Stores.RequestStore.replay S row command' =
      if command' = command then .ok (.request row)
      else .error (.sessionConflict "Request ID was reused with different input") := by
  unfold Stores.RequestStore.replay Stores.RequestStore.record
  rw [hcommand, hfingerprint, if_neg (not_not.mpr rfl)]
  show (Stores.RequestStore.validateCommand S row command').bind
    (fun _ => (Except.ok (Stores.Answer.request row) : Stores.Result)) = _
  unfold Stores.RequestStore.validateCommand
  rw [hcommand, hfingerprint]
  by_cases h : command' = command
  · rw [if_pos h, if_neg (by simp [h])]
    rfl
  · rw [if_neg h, if_pos (.inl fun heq => h heq.symm)]
    rfl

/-- A closed request is answered as accepted when it was applied. -/
theorem exec_answered {taskId : Uuid} {row : RequestRow} {task : TaskRow}
    (htask : w.db.tasks.get taskId = some task) :
    (∃ status, (answered taskId row).exec World.row w = (.accepted taskId status, w)) ↔
      row.state = .applied := by
  unfold answered
  cases hstate : row.state with
  | applied =>
    refine ⟨fun _ => rfl, fun _ => ⟨task.status, ?_⟩⟩
    simp [acceptedTask, Txn.exec, htask]
  | _ => simp [Txn.exec]

/-- The row of an equal request is answered from the row; another request is refused. -/
theorem exec_admitCommand {row : RequestRow} {task : TaskRow} {command' : ApiRequest}
    (hrow : w.db.requests.get command.requestId = some row) (hcommand : row.command = command)
    (hfingerprint : row.fingerprint = S.stores.fingerprint command)
    (htask : w.db.tasks.get command.turn.activeTaskId = some task)
    (hid : command'.requestId = command.requestId)
    (hturn : command'.turn.activeTaskId = command.turn.activeTaskId) :
    (∃ status, (admitCommand S now command').exec World.row w =
        (.accepted command.turn.activeTaskId status, w)) ↔
      row.state = .applied ∧ command' = command := by
  have hexec : (admitCommand S now command').exec World.row w =
      (answeredResult command.turn.activeTaskId
        (Stores.RequestStore.replay S.stores row command')).exec World.row w := by
    simp only [admitCommand, Txn.exec, hid, hrow, hturn]
  rw [hexec, replay_eq hcommand hfingerprint]
  by_cases h : command' = command
  · rw [if_pos h]
    simp only [answeredResult, h, and_true]
    exact exec_answered htask
  · rw [if_neg h]
    simp [answeredResult, Txn.exec, h]

/-- A command of the owner of a Task is admitted when its request can be built. -/
theorem exec_ownedTask {taskId : Uuid} {task : TaskRow} {next : TaskRow → Route}
    (htask : w.db.tasks.get taskId = some task) (howner : task.userId = userId) :
    (ownedTask taskId userId next).exec World.row w = (next task).exec World.row w := by
  simp [ownedTask, Txn.exec, htask, howner]

/-- The same body again makes the same request, or it is refused. -/
theorem replayed_command_iff {row : RequestRow} {task : TaskRow} {body : Body}
    (hrow : w.db.requests.get command.requestId = some row) (hcommand : row.command = command)
    (hfingerprint : row.fingerprint = S.stores.fingerprint command)
    (htask : w.db.tasks.get command.turn.activeTaskId = some task)
    (hbody : body.taskId = command.turn.activeTaskId)
    (howner : (∀ b, body ≠ .create b) → task.userId = userId)
    (hid : ∀ command', commandOf S userId task body = .ok command' →
      command'.requestId = command.requestId ∧
        command'.turn.activeTaskId = command.turn.activeTaskId) :
    Replayed S userId body w ↔
      row.state = .applied ∧ commandOf S userId task body = .ok command := by
  -- Every route ends in `admitOr` of the request it builds from the Task.
  have hpost : ∀ now, (post S userId now body).exec World.row w =
      (admitOr S now (commandOf S userId task body)).exec World.row w := by
    intro now
    cases body with
    | create body => rfl
    | resume body =>
      have howner := howner (by simp)
      have hbody : body.taskId = command.turn.activeTaskId := hbody
      simp only [post, commandOf, howner, ne_eq, not_true_eq_false, if_false]
      exact exec_ownedTask (hbody ▸ htask) howner
    | cancel body =>
      have howner := howner (by simp)
      have hbody : body.taskId = command.turn.activeTaskId := hbody
      simp only [post, commandOf, howner, ne_eq, not_true_eq_false, if_false]
      exact exec_ownedTask (hbody ▸ htask) howner
  unfold Replayed
  simp only [hpost, hbody]
  cases hnow : commandOf S userId task body with
  | error e => simp [admitOr, Txn.exec]
  | ok command' =>
    obtain ⟨hsame, hturn⟩ := hid command' hnow
    simp only [admitOr, exec_admitCommand hrow hcommand hfingerprint htask hsame hturn,
      Except.ok.injEq, forall_const]

/-- What a request has of its body, and of the Task when it is not a `START`. -/
theorem commandOf_spec {task : TaskRow} {body : Body}
    (h : commandOf S userId task body = .ok command) :
    command.requestId = requestId S body.idempotencyKey ∧
      command.turn.activeTaskId = body.taskId ∧
      ((∀ b, body ≠ .create b) → task.userId = userId ∧
        command.turn = taskTurn S body.taskId task) := by
  cases body with
  | create body =>
    obtain rfl := Except.ok.inj h
    exact ⟨rfl, rfl, fun hne => absurd rfl (hne body)⟩
  | resume body =>
    simp only [commandOf] at h
    split at h
    · cases h
    · rename_i howner
      obtain ⟨-, interruptId, -, rfl⟩ := resumeCommand_eq_ok.mp h
      exact ⟨rfl, rfl, fun _ => ⟨not_not.mp howner, rfl⟩⟩
  | cancel body =>
    simp only [commandOf] at h
    split at h
    · cases h
    · rename_i howner
      obtain ⟨-, interruptId, -, rfl⟩ := cancelCommand_eq_ok.mp h
      exact ⟨rfl, rfl, fun _ => ⟨not_not.mp howner, rfl⟩⟩

/-- A Task that identifies itself by a turn gives the turn back. -/
theorem taskTurn_eq {taskId : Uuid} {task task' : TaskRow}
    (hsame : RequestStore.sameIdentity task' (taskTurn S taskId task) = true) :
    taskTurn S taskId task' = taskTurn S taskId task := by
  obtain ⟨h₁, h₂, h₃, h₄, h₅⟩ := of_decide_eq_true hsame
  simp only [taskTurn] at h₁ h₂ h₃ h₄ h₅
  simp only [taskTurn, h₁, h₂, h₃, h₄, h₅]

/-- An admitted body makes its request again exactly while the Task is at the same interrupt. -/
theorem commandOf_eq_iff {task task' : TaskRow} {body : Body}
    (h : commandOf S userId task body = .ok command)
    (hsame : RequestStore.sameIdentity task' command.turn = true) :
    commandOf S userId task' body = .ok command ↔ StillOpen S task' command body := by
  obtain ⟨hrequest, -, hturn⟩ := commandOf_spec h
  -- The identity of the Task has stayed, so its turn and its owner are the same.
  have hnow : (∀ b, body ≠ .create b) →
      task'.userId = userId ∧ command.turn = taskTurn S body.taskId task' := by
    intro hne
    obtain ⟨howner, hturn⟩ := hturn hne
    rw [hturn] at hsame
    have hsame := taskTurn_eq hsame
    exact ⟨(congrArg TaskTurn.userId hsame).trans howner, hturn.trans hsame.symm⟩
  have hinput : ∀ {input : ApiInput}, command.turn = taskTurn S body.taskId task' →
      (command = ⟨requestId S body.idempotencyKey, taskTurn S body.taskId task', input⟩ ↔
        command.input = input) := by
    intro input hturn'
    refine ⟨fun heq => by rw [heq], fun hinput => ?_⟩
    calc command = ⟨command.requestId, command.turn, command.input⟩ := rfl
      _ = _ := by rw [hrequest, hturn', hinput]
  cases body with
  | create body => exact ⟨fun _ => trivial, fun _ => h⟩
  | resume body =>
    obtain ⟨howner, hturn'⟩ := hnow (by simp)
    simp only [commandOf, howner, ne_eq, not_true_eq_false, if_false, resumeCommand_eq_ok,
      StillOpen]
    refine and_congr_right fun _ => exists_congr fun interruptId => and_congr_right fun _ => ?_
    exact hinput hturn'
  | cancel body =>
    obtain ⟨howner, hturn'⟩ := hnow (by simp)
    simp only [commandOf, howner, ne_eq, not_true_eq_false, if_false, cancelCommand_eq_ok,
      StillOpen]
    refine and_congr_right fun _ => exists_congr fun interruptId => and_congr_right fun _ => ?_
    exact hinput hturn'

/-- In every later state of a run, a body that was admitted is replayed exactly when its request was
applied and, unless it is a `START`, the Task is still at the interrupt that it answered. -/
theorem replayed_iff {s : State} (hr : (stores S.stores).Reachable s) {body : Body}
    (hadmitted : WasAdmitted S s userId body command) (threads : Uuid → Session.Thread) :
    ∃ row task, s.db.requests.get (requestId S body.idempotencyKey) = some row ∧
      s.db.tasks.get body.taskId = some task ∧
      (Replayed S userId body ⟨s.db, threads⟩ ↔
        row.state = .applied ∧ StillOpen S task command body) := by
  obtain ⟨task₀, e, node, base, now, hcommand, he, hop⟩ := hadmitted
  obtain ⟨⟨row, hrow, hrowCommand, hfingerprint⟩, task, htask, hsame⟩ :=
    recorded_reachable hr he hop
  obtain ⟨hrequest, hTask, hturn⟩ := commandOf_spec hcommand
  refine ⟨row, task, hrequest ▸ hrow, hTask ▸ htask, ?_⟩
  rw [← commandOf_eq_iff hcommand hsame]
  refine replayed_command_iff hrow hrowCommand hfingerprint htask hTask.symm ?_ ?_
  · intro hne
    obtain ⟨howner, hturn⟩ := hturn hne
    rw [hturn] at hsame
    have := congrArg TaskTurn.userId (taskTurn_eq hsame)
    exact this.trans howner
  · intro command' hcommand'
    obtain ⟨hrequest', hTask', -⟩ := commandOf_spec hcommand'
    exact ⟨hrequest'.trans hrequest.symm, hTask'.trans hTask.symm⟩

end Again

/-! ## A Task that has gone on -/

namespace Sample

/-- A deployment in which two idempotency keys make requests 61 and 62. -/
def settings : Settings where
  stores := Stores.Sample.settings
  deployment := Graph.Sample.deployment
  runtimeProfile := "basic"
  uuid5 text := if text = "ex-agent/api/start" then 61 else 62
  interruptNumber := String.length

/-- The Task is made. -/
def created : Body := .create ⟨"project", 1, 7, 8, "analyse", "start"⟩

/-- A question is answered. -/
def answer : Body := .resume ⟨7, "answer", .clarification "all of it", by decide⟩

/-- The request of a body that starts or answers. -/
def request (id : Uuid) (input : ApiInput) : ApiRequest := ⟨id, Stores.Sample.turn, input⟩

/-- The record of the first attempt of a request. -/
def running (command : ApiRequest) (node : Graph.Node) : RequestRow where
  taskId := 7
  sessionId := 1
  command := command
  fingerprint := command.requestId
  targetNode := node
  baseCheckpointId := none
  state := .running
  attempts := 1
  nextAttemptAt := 0

/-- The request is executed and applied. -/
def applied (i : ℕ) (command : ApiRequest) (node : Graph.Node) : List (Server.Act Op) :=
  Stores.Sample.call i (.claimRequest command.requestId 1 5) 3 ++
    Stores.Sample.call (i + 1) (.finishRequest (running command node) .applied none 2 0) 2

/-- Task 7 is made. -/
def started : List (Server.Act Op) :=
  Stores.Sample.start ++ applied 2 (request 61 .start) .beginTask

/-- The interrupt of a question. -/
def question : Dict :=
  ⟨[("interrupt_id", "\"q\""), ("kind", "\"CLARIFICATION\"")], by decide⟩

/-- The answer to the question of Task 7. -/
def answerRequest : ApiRequest := request 62 (.resume 3 (.clarification "all of it"))

/-- Task 7 asks, the answer is applied, and the Task goes on. -/
def answeredRun : List (Server.Act Op) :=
  started ++ Stores.Sample.call 4 (.project 7 .planning (some question)) 2 ++
    Stores.Sample.call 5 (.accept answerRequest .clarifyRequest (some 3) 4) 5 ++
    applied 6 answerRequest .clarifyRequest ++
    Stores.Sample.call 8 (.project 7 .planning none) 2

/-- The state after a list of actions. -/
def afterRun (actions : List (Server.Act Op)) : State :=
  Stores.Sample.after (stores settings.stores) actions

/-- No session has a checkpoint. -/
def threads : Uuid → Session.Thread := fun _ => { world := {}, values := {}, next := none }

/-- The run that starts a Task reaches its state. -/
theorem started_reachable : (stores settings.stores).Reachable (afterRun started) :=
  Stores.Sample.after_reachable (by decide +kernel)

/-- The run in which the interrupt is answered reaches its state. -/
theorem answered_reachable : (stores settings.stores).Reachable (afterRun answeredRun) :=
  Stores.Sample.after_reachable (by decide +kernel)

end Sample

/-- A `START` is replayed after it was applied. -/
theorem replayed_iff_started :
    (stores Sample.settings.stores).Reachable (Sample.afterRun Sample.started) ∧
      Replayed Sample.settings "user" Sample.created
        ⟨(Sample.afterRun Sample.started).db, Sample.threads⟩ := by
  have hadmitted : WasAdmitted Sample.settings (Sample.afterRun Sample.started) "user"
      Sample.created (Sample.request 61 .start) :=
    ⟨Stores.RequestStore.startTask Stores.Sample.turn, _, .beginTask, none, 0, rfl,
      List.mem_of_getElem? (i := 0) rfl, rfl⟩
  obtain ⟨row, task, hrow, -, hiff⟩ :=
    replayed_iff Sample.started_reachable hadmitted Sample.threads
  have hstate : ((Sample.afterRun Sample.started).db.requests.get 61).map RequestRow.state =
      some .applied := by decide +kernel
  have hrow : (Sample.afterRun Sample.started).db.requests.get 61 = some row := hrow
  rw [hrow] at hstate
  exact ⟨Sample.started_reachable, hiff.mpr ⟨Option.some.inj hstate, trivial⟩⟩

/-- The claim of idempotency, for requests that were applied. -/
def Idempotent : Prop :=
  ∀ S s userId body command threads, (stores S.stores).Reachable s →
    WasAdmitted S s userId body command →
    (∀ row, s.db.requests.get command.requestId = some row → row.state = .applied) →
    Replayed S userId body ⟨s.db, threads⟩

/-- An answer that was applied is refused when it is sent again after the Task has gone on. -/
theorem not_idempotent : ¬ Idempotent := by
  intro h
  have hadmitted : WasAdmitted Sample.settings (Sample.afterRun Sample.answeredRun) "user"
      Sample.answer Sample.answerRequest :=
    ⟨{ Stores.RequestStore.startTask Stores.Sample.turn with
        currentInterrupt := some Sample.question }, _, .clarifyRequest, some 3, 4,
      by decide +kernel, List.mem_of_getElem? (i := 4) rfl, rfl⟩
  have happlied : ((Sample.afterRun Sample.answeredRun).db.requests.get 62).map RequestRow.state =
      some .applied := by decide +kernel
  obtain ⟨status, hpost⟩ := h _ _ _ _ _ Sample.threads Sample.answered_reachable hadmitted
    (fun row hrow => by
      have hrow : (Sample.afterRun Sample.answeredRun).db.requests.get 62 = some row := hrow
      rw [hrow] at happlied
      exact Option.some.inj happlied) 9
  have hrefused : ((post Sample.settings "user" 9 Sample.answer).exec World.row
      ⟨(Sample.afterRun Sample.answeredRun).db, Sample.threads⟩).1 =
        .error (conflict "Task is not awaiting input") := by decide +kernel
  rw [hpost] at hrefused
  cases hrefused

end ExAgent.Api
