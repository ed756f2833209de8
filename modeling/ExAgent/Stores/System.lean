import ExAgent.Stores.Tasks

/-!
# The stores at work

The calls of the three stores and the two projections by any number of processes, each call one
transaction that goes on statement by statement. No call is kept from another by the session guard.

A fenced write is made with a record, which is up to the caller. A caller that holds a claim names
the commit of the claim among the commits so far; the record then has the attempt number that the
claim returned.
-/

namespace ExAgent.Stores

open Lib ExAgent.Graph
open Session (ApiRequest RequestState)

/-- The writes of `FailureStore` that are fenced by an attempt. -/
inductive FencedWrite
  | bindExecution (executionId : Uuid)
  | confirm (executionId : Option Uuid) (status : ExecutorStatus) (message : String)
  | defer (error : String) (now delay : Time) (blocked : Bool)
  | finish
deriving DecidableEq

/-- The calls. -/
inductive Op
  | accept (command : ApiRequest) (targetNode : Node) (baseCheckpointId : Option ℕ) (now : Time)
  | claimRequest (requestId : Uuid) (now delay : Time)
  | finishRequest (record : RequestRow) (state : RequestState) (error : Option String)
      (now delay : Time)
  | resolveApplied (record : RequestRow)
  | deferRequest (requestId : Uuid) (now delay : Time)
  | ensure (taskId sessionId : Uuid) (source : FailureSource) (reason : String)
      (executionId : Option Uuid) (now : Time)
  | claimCleanup (taskId : Uuid) (maxAttempts : ℕ) (now delay : Time)
  | deferCleanup (taskId : Uuid) (now delay : Time)
  | retryBlocked (taskId : Uuid) (operation : Operation) (expectedVersion : ℕ) (now : Time)
  | fenced (claim : Option ℕ) (record : CleanupRow) (write : FencedWrite)
  | updateStatus (taskId : Uuid) (status : TaskStatus) (payload : Option Dict)
  | recordInterrupt (taskId : Uuid) (payload : Dict)
  | clearInterrupt (taskId : Uuid)
  | commitMessage (taskId : Uuid) (content : String) (status : TaskStatus) (metadata : Dict)
  | lockSession (taskId : Uuid)
  | project (taskId : Uuid) (status : TaskStatus) (interrupt : Option Dict)
  | binding (taskId executionId : Uuid) (executionVersion : ℕ) (operationId : Option Uuid)
      (nextStepSequence : Option ℕ) (create : Bool)
  | terminal (taskId : Uuid) (status : TaskStatus) (message : String) (metadata : Dict)
deriving DecidableEq

/-- The transaction of a fenced write. -/
def FencedWrite.program (record : CleanupRow) : FencedWrite → Transaction
  | .bindExecution executionId => FailureStore.bindExecution record executionId
  | .confirm executionId status message => FailureStore.confirm record executionId status message
  | .defer error now delay blocked => FailureStore.defer record error now delay blocked
  | .finish => FailureStore.finish record

/-- The transaction of a call. -/
def Op.program (S : Settings) : Op → Transaction
  | .accept command targetNode baseCheckpointId now =>
    RequestStore.accept S command targetNode baseCheckpointId now
  | .claimRequest requestId now delay => RequestStore.claim S requestId now delay
  | .finishRequest record state error now delay =>
    RequestStore.finish S record state error now delay
  | .resolveApplied record => RequestStore.resolveApplied record
  | .deferRequest requestId now delay => RequestStore.deferBusy requestId now delay
  | .ensure taskId sessionId source reason executionId now =>
    FailureStore.ensure taskId sessionId source reason executionId now
  | .claimCleanup taskId maxAttempts now delay => FailureStore.claim taskId maxAttempts now delay
  | .deferCleanup taskId now delay => FailureStore.deferBusy taskId now delay
  | .retryBlocked taskId operation expectedVersion now =>
    FailureStore.retryBlocked taskId operation expectedVersion now
  | .fenced _ record write => write.program record
  | .updateStatus taskId status payload => TaskRepository.updateStatus taskId status payload
  | .recordInterrupt taskId payload => TaskRepository.recordInterrupt taskId payload
  | .clearInterrupt taskId => TaskRepository.clearInterrupt taskId
  | .commitMessage taskId content status metadata =>
    TaskRepository.commitMessage taskId content status metadata
  | .lockSession taskId => TaskRepository.lockSession taskId
  | .project taskId status interrupt => TaskStateProjector.write taskId status interrupt
  | .binding taskId executionId executionVersion operationId nextStepSequence create =>
    EffectProjections.binding taskId executionId executionVersion operationId
      nextStepSequence create
  | .terminal taskId status message metadata =>
    EffectProjections.terminal taskId status message metadata

/-- The attempt that a commit gave out: the cleanup and its attempt number. -/
def claimed? (e : Entry Op Result) : Option (Uuid × ℕ) :=
  match e.op, e.result with
  | .claimCleanup taskId .., .ok (.cleanup row) =>
    if row.state = .pending then some (taskId, row.attempts) else none
  | _, _ => none

/-- The calls that can be made: a claim that a caller says it holds was given out. -/
def Op.isAdmitted (history : List (Entry Op Result)) : Op → Bool
  | .fenced (some i) record _ =>
    (history[i]?.bind claimed?) = some (record.taskId, record.attempts)
  | _ => true

/-- The calls of `RequestStore` and `FailureStore`. -/
def Op.isOfStores : Op → Bool
  | .accept .. | .claimRequest .. | .finishRequest .. | .resolveApplied .. | .deferRequest .. =>
      true
  | .ensure .. | .claimCleanup .. | .deferCleanup .. | .retryBlocked .. | .fenced .. => true
  | .updateStatus .. | .recordInterrupt .. | .clearInterrupt .. | .commitMessage .. => false
  | .lockSession .. | .project .. | .binding .. | .terminal .. => false

/-- The transactions, with the calls that can be made. -/
def workload (S : Settings) (admits : List (Entry Op Result) → Op → Bool) :
    Workload Db RowKey Row Op Result where
  row := Db.row
  program := Op.program S
  admits := admits

/-- A database to start from: Tasks, session locks and bindings as they may be, and neither requests
nor cleanups. -/
def Initial (db : Db) : Prop := db.requests = .empty ∧ db.cleanups = .empty

/-- A state of the stores. -/
abbrev State := Server Db RowKey Row Op Result

/-- The runs with the calls that can be made. -/
def runs (S : Settings) (admits : List (Entry Op Result) → Op → Bool) :
    Machine State (Server.Act Op) :=
  Server.machine (workload S admits) Initial

/-- The runs of all writers of the tables. -/
abbrev stores (S : Settings) : Machine State (Server.Act Op) := runs S Op.isAdmitted

/-- The runs of `RequestStore` and `FailureStore` alone. -/
abbrev twoStores (S : Settings) : Machine State (Server.Act Op) :=
  runs S fun history op => op.isOfStores && op.isAdmitted history

/-! ## Runs on concrete inputs -/

namespace Sample

/-- A deployment with two attempts for a request. -/
def settings : Settings where
  fingerprint command := command.requestId
  maxAttempts := 2

/-- The turn of Task 7. -/
def turn : TaskTurn := ⟨"user", "project", 1, 7, 8, "analyse", "basic"⟩

/-- A call from its first statement to its last. -/
def call (id : ℕ) (op : Op) (statements : ℕ) : List (Server.Act Op) :=
  .begin id op :: List.replicate statements (.next id)

/-- Request 61 starts Task 7. -/
def start : List (Server.Act Op) :=
  call 1 (.accept ⟨61, turn, .start⟩ .beginTask none 0) 7

/-- The record of an attempt to clean Task 7 up. -/
def record (attempts : ℕ) : CleanupRow where
  taskId := 7
  sessionId := 1
  turn := turn
  source := .api 61
  reason := "failed"
  attempts := attempts
  nextAttemptAt := 0
  executionId := none
  executorStatus := some .notRequired
  preserveTerminal := false
  finalStatus := .failed
  message := some "failed"

/-- A cleanup of Task 7 is made and claimed. -/
def cleaning : List (Server.Act Op) :=
  start ++ call 2 (.ensure 7 1 (.api 61) "failed" none 1) 5 ++ call 3 (.claimCleanup 7 20 2 5) 2

/-- The holder of the claim confirms and finishes. -/
def finished : List (Server.Act Op) :=
  cleaning ++ call 4 (.fenced (some 2) (record 1) (.confirm none .notRequired "failed")) 2 ++
    call 5 (.fenced (some 2) (record 1) .finish) 7

/-- The state that a list of actions leads to from an empty database. -/
def after (M : Machine State (Server.Act Op)) (actions : List (Server.Act Op)) : State :=
  (M.run { db := {} } actions).getD { db := {} }

variable {A : List (Entry Op Result) → Op → Bool} {actions : List (Server.Act Op)}

/-- The state a run ends in is the state after it. -/
theorem after_eq {s : State} (h : (runs settings A).run { db := {} } actions = some s) :
    after (runs settings A) actions = s := by
  unfold after
  rw [h]
  rfl

/-- The empty store is a state to start from. -/
theorem initial : (runs settings A).init { db := {} } := ⟨{}, ⟨rfl, rfl⟩, rfl⟩

/-- A list of actions that runs to its end reaches a state. -/
theorem after_reachable (h : ((runs settings A).run { db := {} } actions).isSome = true) :
    (runs settings A).Reachable (after (runs settings A) actions) := by
  obtain ⟨s, hs⟩ := Option.isSome_iff_exists.mp h
  rw [after_eq hs]
  exact Machine.Reachable.run (.start initial) hs

/-- The same for steps that meet a condition. -/
theorem after_reachableWhen {C : State → Server.Act Op → Prop} [∀ s a, Decidable (C s a)]
    (h : ((runs settings A).runIf C { db := {} } actions).isSome = true) :
    (runs settings A).ReachableWhen C (after (runs settings A) actions) := by
  obtain ⟨s, hs⟩ := Option.isSome_iff_exists.mp h
  rw [after_eq (Machine.run_of_runIf hs)]
  exact Machine.ReachableWhen.runIf (.start initial) hs

end Sample

end ExAgent.Stores
