import ExAgent.Lib.Table
import ExAgent.Lib.Transition
import ExAgent.Values
import Mathlib.Data.List.Sort

/-!
# The outbox of product events

`claim_pending_task_events` and `finish_task_event_publications` of
`ex_agent/persistence/repositories/delivery.py`, and `ProductEventPublisher.publish_pending` of
`ex_agent/transport/streams.py`, run by any number of publishers.

A call of `publish_pending` claims a batch, sends one pipeline to Redis, and finishes the events of
the batch: those whose `XADD` and whose Task's `PUBLISH` have both succeeded, then the others. Each
command of the pipeline can fail on its own, and the replies can be lost whatever Redis has done.
The process can die between any two awaits, and what it has claimed is claimed again once it is
stale.

The publications are kept in the order of their claims, the returned ones too, and `sent` is the log
of the commands that succeeded in Redis, each with the publication that sent it.
-/

namespace ExAgent.Transport.ProductEvents

open Lib

/-! ## Rows -/

/-- A reading of a publisher's clock, in microseconds. -/
abbrev Instant := ℕ

/-- `delivery_state` of an event. -/
inductive DeliveryState
  | pending
  | publishing
  | published
deriving DecidableEq

/-- A row of `agent_task_events`. -/
structure TaskEvent where
  taskId : Uuid
  eventType : String
  payload : Dict
  deliveryState : DeliveryState := .pending
  deliveryAttemptCount : ℕ := 0
  deliveryLastError : Option String := none
  deliveryClaimedAt : Option Instant := none
deriving DecidableEq

/-- The events, by `id`. -/
abbrev Events := Table ℕ TaskEvent

/-! ## The repository -/

/-- The condition of `claim_pending_task_events`; a claim without a time is never stale. -/
def TaskEvent.claimable (event : TaskEvent) (staleBefore : Instant) : Bool :=
  match event.deliveryState with
  | .pending => true
  | .publishing => event.deliveryClaimedAt.any fun claimedAt => claimedAt < staleBefore
  | .published => false

/-- The writes of `claim_pending_task_events`. -/
def TaskEvent.claimed (event : TaskEvent) (claimedAt : Instant) : TaskEvent :=
  { event with deliveryState := .publishing, deliveryClaimedAt := some claimedAt
               deliveryAttemptCount := event.deliveryAttemptCount + 1 }

/-- The rows that `claim_pending_task_events` selects: the first ones by `id` that can be claimed,
without those that other transactions have locked. -/
def selected (events : Events) (limit : ℕ) (staleBefore : Instant) (locked : List ℕ) :
    List (ℕ × TaskEvent) :=
  ((events.entries.filter fun e => e.2.claimable staleBefore ∧ e.1 ∉ locked).insertionSort
    fun a b => a.1 ≤ b.1).take limit

/-- `claim_pending_task_events`, with the clock when it begins and when it has selected. -/
def claimPendingTaskEvents (events : Events) (limit claimTimeout : ℕ) (now : Instant)
    (locked : List ℕ) (claimedAt : Instant) : Events × List (ℕ × TaskEvent) :=
  let rows := selected events limit (now - claimTimeout) locked
  (events.modify fun id event =>
      if id ∈ rows.map Prod.fst then event.claimed claimedAt else event,
    rows.map fun e => (e.1, e.2.claimed claimedAt))

/-- The writes of `finish_task_event_publications`. -/
def TaskEvent.finished (event : TaskEvent) (published : Bool) (error : Option String) : TaskEvent :=
  { event with deliveryState := if published then .published else .pending
               deliveryClaimedAt := none
               deliveryLastError := if published then none else error }

/-- `finish_task_event_publications`. -/
def finishTaskEventPublications (events : Events) (eventIds : List ℕ) (claimedAt : Instant)
    (published : Bool) (error : Option String) : Events :=
  if eventIds = [] then events
  else events.modify fun id event =>
    if id ∈ eventIds ∧ event.deliveryState = .publishing ∧ event.deliveryClaimedAt = some claimedAt
    then event.finished published error
    else event

/-! ## The pipeline -/

/-- The commands of the pipeline. -/
inductive Command
  /-- `XADD` to the stream of product events, with the fields of `_event_fields`. -/
  | xadd (eventId : ℕ) (taskId : Uuid) (eventType : String) (payload : Dict)
  /-- `PUBLISH` to the channel of a Task. -/
  | publish (taskId : Uuid) (eventId : ℕ)
deriving DecidableEq

/-- `last_event_by_task[task_id] = event_id`: a new key comes last, one that is there keeps its
place. -/
def assign (taskId : Uuid) (eventId : ℕ) : List (Uuid × ℕ) → List (Uuid × ℕ)
  | [] => [(taskId, eventId)]
  | (key, value) :: rest =>
    if key = taskId then (key, eventId) :: rest else (key, value) :: assign taskId eventId rest

/-- `last_event_by_task`. -/
def lastEventByTask (events : List (ℕ × TaskEvent)) : List (Uuid × ℕ) :=
  events.foldl (fun last e => assign e.2.taskId e.1 last) []

/-- The `XADD` of an event. -/
def xadd (e : ℕ × TaskEvent) : Command := .xadd e.1 e.2.taskId e.2.eventType e.2.payload

/-- The commands of the pipeline, in their order. -/
def commands (events : List (ℕ × TaskEvent)) : List Command :=
  events.map xadd ++ (lastEventByTask events).map fun (taskId, eventId) => .publish taskId eventId

/-- `notification_results`, from the results of the pipeline: whether each is no exception. -/
def notificationResults (events : List (ℕ × TaskEvent)) (results : List Bool) :
    Option (List (Uuid × Bool)) :=
  (lastEventByTask events).zipIdx.mapM fun (last, index) =>
    (results[events.length + index]?).map fun result => (last.1, result)

/-- Whether each event was published, by its position in the batch; `none` where an index or a key
is missing. -/
def outcomes (events : List (ℕ × TaskEvent)) (results : List Bool) : Option (List (ℕ × Bool)) :=
  (notificationResults events results).bind fun notifications =>
    events.zipIdx.mapM fun (event, index) =>
      (results[index]?).bind fun streamResult =>
        (notifications.lookup event.2.taskId).map fun notificationResult =>
          (event.1, streamResult && notificationResult)

/-- `published_ids`, or `failed_ids`. -/
def idsOf (outcomes : List (ℕ × Bool)) (published : Bool) : List ℕ :=
  (outcomes.filter fun o => o.2 = published).map Prod.fst

/-! ## Publications -/

/-- The settings of the outbox, in microseconds. -/
structure Config where
  batchSize : ℕ
  claimTimeout : ℕ

/-- Where a call of `publish_pending` stands. -/
inductive Phase
  /-- The batch is claimed. -/
  | claimed
  /-- The pipeline has raised. -/
  | raised (error : String)
  /-- The pipeline has returned. -/
  | received (results : List Bool)
  /-- The published events are finished, these are not. -/
  | publishedFinished (failed : List ℕ)
  | returned
deriving DecidableEq

/-- A call of `publish_pending` whose batch is not empty. -/
structure Publication where
  events : List (ℕ × TaskEvent)
  claimedAt : Instant
  phase : Phase
deriving DecidableEq

/-- The publication stands somewhere else. -/
def Publication.goto (p : Publication) (phase : Phase) : Publication := { p with phase := phase }

/-- The ids of the batch. -/
def Publication.ids (p : Publication) : List ℕ := p.events.map Prod.fst

/-- The next call of `finish_task_event_publications`, and where the publication stands after it.
The events of a call whose results cannot be matched stay as they are. -/
def Publication.finish (p : Publication) (events : Events) : Option (Events × Phase) :=
  match p.phase with
  | .raised error =>
    some (finishTaskEventPublications events p.ids p.claimedAt false (some error), .returned)
  | .received results =>
    match outcomes p.events results with
    | none => some (events, .returned)
    | some outcomes =>
      some (finishTaskEventPublications events (idsOf outcomes true) p.claimedAt true none,
        .publishedFinished (idsOf outcomes false))
  | .publishedFinished failed =>
    some (finishTaskEventPublications events failed p.claimedAt false
      (some "Redis product-event publication failed"), .returned)
  | .claimed | .returned => none

/-! ## The system -/

/-- The events, the publications in the order of their claims, and the commands that succeeded, each
with the publication that sent it. -/
structure State where
  events : Events
  publications : List Publication
  sent : List (ℕ × Command)

/-- A step of the system. -/
inductive Action
  /-- The agent commits an event. -/
  | append (id : ℕ) (taskId : Uuid) (eventType : String) (payload : Dict)
  /-- A publisher claims a batch. -/
  | claim (now : Instant) (locked : List ℕ) (claimedAt : Instant)
  /-- The pipeline of a publication: which commands succeed, and the exception when the replies do
  not arrive. -/
  | pipeline (i : ℕ) (succeeded : List Bool) (error : Option String)
  /-- A publication's next call of the repository, which may raise after its commit. -/
  | finish (i : ℕ) (raises : Bool)
  /-- A publication ends where it stands: its process dies, or a call raises before its commit. -/
  | die (i : ℕ)

/-- The commands that succeeded. -/
def succeededOf (i : ℕ) (commands : List Command) (succeeded : List Bool) : List (ℕ × Command) :=
  (commands.zip succeeded).filterMap fun (command, ok) => if ok then some (i, command) else none

/-- One step of the system. -/
def step (C : Config) (s : State) : Action → Option State
  | .append id taskId eventType payload =>
    (s.events.insert id { taskId, eventType, payload }).map fun events => { s with events }
  | .claim now locked claimedAt =>
    let (events, batch) :=
      claimPendingTaskEvents s.events C.batchSize C.claimTimeout now locked claimedAt
    -- An empty batch is not published.
    if batch = [] then some s
    else some { s with events, publications := s.publications ++ [⟨batch, claimedAt, .claimed⟩] }
  | .pipeline i succeeded error => (s.publications[i]?).bind fun p =>
    if p.phase = .claimed ∧ succeeded.length = (commands p.events).length then
      -- A pipeline that raises has carried out some of its commands.
      let phase := match error with
        | some error => .raised error
        | none => .received succeeded
      some { s with publications := s.publications.set i (p.goto phase)
                    sent := s.sent ++ succeededOf i (commands p.events) succeeded }
    else none
  | .finish i raises => (s.publications[i]?).bind fun p =>
    (p.finish s.events).map fun (events, phase) =>
      { s with events
               publications := s.publications.set i (p.goto (if raises then .returned else phase)) }
  | .die i => (s.publications[i]?).bind fun p =>
    if p.phase = .returned then none
    else some { s with publications := s.publications.set i (p.goto .returned) }

/-- The publishers of a deployment, from an empty table on. -/
def machine (C : Config) : Machine State Action where
  init s := s = ⟨.empty, [], []⟩
  step := step C

end ExAgent.Transport.ProductEvents
