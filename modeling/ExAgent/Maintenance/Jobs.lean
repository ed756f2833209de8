import ExAgent.Lib.Fallible
import ExAgent.Lib.Table
import ExAgent.Lib.Transition
import ExAgent.Values
import Mathlib.Data.List.Sort

/-!
# Stream maintenance jobs

`StreamMaintenanceStore` and `StreamMaintenanceRecovery` of `ex_agent/maintenance`, run by any
number of workers. A call of `execute` claims a job, runs its trim or plan, and settles the claim.
Between any two of its awaits everything else can happen: another worker takes the claim over once
it is stale, the process dies, the connection is lost before or after a commit.

A claim is fenced by the number of the attempt that it began: `succeed` and `fail` write only to a
row that still runs that attempt. The executions are kept in the order of their claims, the returned
ones too, and `starts` is the log of the trims and plans that were begun.
-/

namespace ExAgent.Maintenance

open Lib

/-! ## Rows -/

/-- A reading of a worker's clock, in microseconds. -/
abbrev Instant := ℕ

/-- `action` of a job. -/
inductive JobAction
  | plan
  | trim
deriving DecidableEq

/-- `state` of a job. -/
inductive JobState
  | pending
  | running
  | succeeded
  | failed
deriving DecidableEq

/-- `result` of a job: the fields of the outcome, and for a trim one more. -/
structure Result where
  outcome : Dict
  resultRecalculatedAfterRetry : Option Bool
deriving DecidableEq

/-- A row of `agent_stream_maintenance_jobs`. -/
structure Job where
  streamAlias : String
  streamKey : String
  action : JobAction
  state : JobState := .pending
  idempotencyKey : String
  requestHash : Sha256
  reason : String
  retentionSeconds : ℕ
  minimumRetainedEntries : ℕ
  attempts : ℕ := 0
  nextAttemptAt : Instant
  claimedAt : Option Instant := none
  result : Option Result := none
  lastError : Option String := none
  createdBy : String
  updatedBy : String
deriving DecidableEq

/-- The jobs, by `id`. -/
abbrev Jobs := Table Uuid Job

/-- The exceptions of the store. -/
inductive StoreError
  /-- `LookupError`. -/
  | unknownJob (jobId : Uuid)
  /-- `StreamMaintenanceConflict`. -/
  | conflict (message : String)
deriving DecidableEq

/-- `Maintenance claim was superseded`. -/
def superseded : StoreError := .conflict "Maintenance claim was superseded"

/-! ## The store -/

/-- The arguments of `create`. -/
structure Request where
  streamAlias : String
  streamKey : String
  action : JobAction
  actor : String
  idempotencyKey : String
  requestHash : Sha256
  reason : String
  retentionSeconds : ℕ
  minimumRetainedEntries : ℕ

/-- `_replay`. -/
def replay (id : Uuid) (row : Job) (requestHash : Sha256) : Except StoreError (Uuid × Bool) :=
  if row.requestHash ≠ requestHash then
    .error (.conflict "Idempotency key was reused with another request")
  else .ok (id, true)

/-- The index `uq_agent_stream_maintenance_active_trim`. -/
def activeTrim (jobs : Jobs) (streamKey : String) : Bool :=
  jobs.entries.any fun e => e.2.streamKey = streamKey ∧ e.2.action = .trim ∧
    (e.2.state = .pending ∨ e.2.state = .running)

/-- `StreamMaintenanceStore.create`, with the `id` that a new row gets. -/
def create (jobs : Jobs) (id : Uuid) (now : Instant) (q : Request) :
    Except StoreError (Jobs × Uuid × Bool) :=
  match jobs.entries.find? fun e => e.2.createdBy = q.actor ∧
    e.2.idempotencyKey = q.idempotencyKey with
  | some (existing, row) => (replay existing row q.requestHash).map fun r => (jobs, r)
  | none =>
    let refused : StoreError := .conflict ("Another trim is active for Stream: " ++ q.streamAlias)
    if q.action = .trim ∧ activeTrim jobs q.streamKey then .error refused
    else
      match jobs.insert id
          { streamAlias := q.streamAlias, streamKey := q.streamKey, action := q.action
            idempotencyKey := q.idempotencyKey, requestHash := q.requestHash
            reason := String.ofList (q.reason.toList.take 2000)
            retentionSeconds := q.retentionSeconds
            minimumRetainedEntries := q.minimumRetainedEntries
            nextAttemptAt := now, createdBy := q.actor, updatedBy := q.actor } with
      | some jobs' => .ok (jobs', id, false)
      | none => .error refused

/-- The claim on a running job is stale: `claimed_at < now - claim_timeout_seconds`. -/
def Job.stale (job : Job) (now : Instant) (claimTimeout : ℕ) : Bool :=
  job.claimedAt.any fun claimedAt => claimedAt < now - claimTimeout

/-- `StreamMaintenanceStore.due`. -/
def due (jobs : Jobs) (now : Instant) (limit claimTimeout : ℕ) : List Uuid :=
  (((jobs.entries.filter fun e =>
      e.2.state = .pending ∧ e.2.nextAttemptAt ≤ now ∨
        e.2.state = .running ∧ e.2.stale now claimTimeout).insertionSort
    fun a b => a.2.nextAttemptAt < b.2.nextAttemptAt ∨
      (a.2.nextAttemptAt = b.2.nextAttemptAt ∧ a.1 ≤ b.1)).take limit).map Prod.fst

/-- `claim` goes on to its writes. -/
def Job.claimable (job : Job) (now : Instant) (claimTimeout : ℕ) : Bool :=
  match job.state with
  | .pending => job.nextAttemptAt ≤ now
  | .running => job.stale now claimTimeout
  | .succeeded | .failed => false

/-- The writes of `claim`. -/
def Job.taken (job : Job) (now : Instant) (actor : String) : Job :=
  { job with state := .running, claimedAt := some now, attempts := job.attempts + 1,
             updatedBy := actor }

/-- `StreamMaintenanceStore.claim`; `none` where it returns `None`. -/
def claim (jobs : Jobs) (id : Uuid) (now : Instant) (claimTimeout : ℕ) (actor : String) :
    Option (Jobs × Job) :=
  match jobs.get id with
  | none => none
  | some job =>
    if job.claimable now claimTimeout then
      some (jobs.modifyAt id fun _ => job.taken now actor, job.taken now actor)
    else none

/-- `_claimed`. -/
def claimed (jobs : Jobs) (id : Uuid) (attempt : ℕ) : Except StoreError Job :=
  match jobs.get id with
  | none => .error (.unknownJob id)
  | some job =>
    if job.state ≠ .running ∨ job.attempts ≠ attempt then .error superseded else .ok job

/-- `StreamMaintenanceStore.succeed`. -/
def succeed (jobs : Jobs) (id : Uuid) (attempt : ℕ) (result : Result) (actor : String) :
    Except StoreError Jobs :=
  (claimed jobs id attempt).map fun job =>
    jobs.modifyAt id fun _ =>
      { job with state := .succeeded, result := some result, lastError := none,
                 claimedAt := none, updatedBy := actor }

/-- The row that `fail` leaves. -/
def Job.retried (job : Job) (error : String) (maxAttempts retryDelay : ℕ) (now : Instant)
    (actor : String) : Job :=
  let job := { job with lastError := some (String.ofList (error.toList.take 2000)),
                        claimedAt := none, updatedBy := actor }
  if job.attempts ≥ maxAttempts then { job with state := .failed }
  else { job with state := .pending, nextAttemptAt := now + retryDelay }

/-- `StreamMaintenanceStore.fail`. -/
def fail (jobs : Jobs) (id : Uuid) (attempt : ℕ) (error : String) (maxAttempts retryDelay : ℕ)
    (now : Instant) (actor : String) : Except StoreError Jobs :=
  (claimed jobs id attempt).map fun job =>
    jobs.modifyAt id fun _ => job.retried error maxAttempts retryDelay now actor

/-! ## Executions -/

/-- `StreamMaintenanceRecovery`: what its constructor checks of the budgets used below, times in
microseconds. -/
structure Recovery where
  claimTimeout : ℕ
  maxAttempts : ℕ
  retryDelay : ℕ
  positive : 0 < claimTimeout ∧ 0 < maxAttempts ∧ 0 < retryDelay

/-- Where a call of `execute` stands. -/
inductive Phase
  /-- `claim` has returned a row. -/
  | claimed
  /-- `trimmer.plan` or `trimmer.trim` was called. -/
  | started
  /-- It has returned, and `succeed` is called. -/
  | succeeding (outcome : Dict)
  /-- The `except` branch, where `fail` is called. -/
  | failing (error : String)
  | returned
deriving DecidableEq

/-- A call of `execute` whose claim succeeded. -/
structure Execution where
  jobId : Uuid
  /-- The row as `claim` returned it. -/
  row : Job
  actor : String
  phase : Phase
deriving DecidableEq

/-- The attempt that the claim began. -/
def Execution.attempt (e : Execution) : ℕ := e.row.attempts

/-- The execution stands somewhere else. -/
def Execution.goto (e : Execution) (phase : Phase) : Execution := { e with phase := phase }

/-- `result` of `execute`. -/
def Execution.result (e : Execution) (outcome : Dict) : Result where
  outcome := outcome
  resultRecalculatedAfterRetry :=
    if e.row.action = .trim then some (decide (e.row.attempts > 1)) else none

/-- `f"{type(error).__name__}: {error}"` of an exception of the store. -/
def StoreError.text (uuidText : Uuid → String) : StoreError → String
  | .unknownJob id => "LookupError: Unknown Stream maintenance job: " ++ uuidText id
  | .conflict message => "StreamMaintenanceConflict: " ++ message

/-! ## The system -/

/-- The jobs, the executions in the order of their claims, and the jobs whose trim or plan was
started. -/
structure State where
  jobs : Jobs
  executions : List Execution
  starts : List Uuid

/-- How an execution goes on: to its next await, with the clock there; with the outcome of the
trimmer; with an exception where it stands, which for a call of the store can come after its commit;
or not at all. -/
inductive Go
  | resume (now : Instant) (uuidText : Uuid → String)
  | respond (outcome : Dict)
  | raise (text : String)
  | lose (now : Instant) (text : String)
  | die

/-- A step of the system. -/
inductive Action
  | create (id : Uuid) (now : Instant) (request : Request)
  /-- `execute` is called, by `once` or by an operator, and claims. -/
  | claim (id : Uuid) (now : Instant) (actor : String)
  | go (i : ℕ) (g : Go)

/-- The jobs after an execution's call of the store. -/
def settle (R : Recovery) (jobs : Jobs) (e : Execution) (now : Instant) :
    Option (Except StoreError Jobs) :=
  match e.phase with
  | .succeeding outcome => some (succeed jobs e.jobId e.attempt (e.result outcome) e.actor)
  | .failing error =>
    some (fail jobs e.jobId e.attempt error R.maxAttempts R.retryDelay now e.actor)
  | _ => none

/-- Where an execution goes on after an exception: an exception of `fail` leaves `execute`. -/
def Execution.caught (e : Execution) (text : String) : Execution :=
  match e.phase with
  | .failing _ | .returned => e.goto .returned
  | _ => e.goto (.failing text)

/-- One step of an execution: the jobs, the execution, and what it adds to the log. -/
def Execution.go (R : Recovery) (jobs : Jobs) (e : Execution) :
    Go → Option (Jobs × Execution × List Uuid)
  | .resume now uuidText =>
    match e.phase with
    | .claimed => some (jobs, e.goto .started, [e.jobId])
    | _ => (settle R jobs e now).map fun
      | .ok jobs' => (jobs', e.goto .returned, [])
      | .error error => (jobs, e.caught (error.text uuidText), [])
  | .respond outcome =>
    if e.phase = .started then some (jobs, e.goto (.succeeding outcome), []) else none
  | .raise text => if e.phase = .returned then none else some (jobs, e.caught text, [])
  | .lose now text => (settle R jobs e now).bind fun
    | .ok jobs' => some (jobs', e.caught text, [])
    | .error _ => none
  | .die => if e.phase = .returned then none else some (jobs, e.goto .returned, [])

/-- One step of the system. -/
def step (R : Recovery) (s : State) : Action → Option State
  | .create id now request =>
    match create s.jobs id now request with
    | .ok (jobs, _) => some { s with jobs }
    | .error _ => some s
  | .claim id now actor =>
    match claim s.jobs id now R.claimTimeout actor with
    | some (jobs, row) =>
      some { s with jobs, executions := s.executions ++ [⟨id, row, actor, .claimed⟩] }
    | none => some s
  | .go i g => (s.executions[i]?).bind fun e =>
    (e.go R s.jobs g).map fun (jobs, e', started) =>
      { jobs, executions := s.executions.set i e', starts := s.starts ++ started }

/-- The workers of a deployment, from an empty table on. -/
def machine (R : Recovery) : Machine State Action where
  init s := s = ⟨.empty, [], []⟩
  step := step R

end ExAgent.Maintenance
