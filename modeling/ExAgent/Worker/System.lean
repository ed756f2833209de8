import Mathlib.Logic.Function.Basic
import ExAgent.Lib.Transition
import ExAgent.Worker.Dispatcher

/-!
# The worker as a system

Any number of replicas around one database and one Redis stream. A step is one transaction of the
store, one command on the stream, one move of a consumer process, or a process death. What the
environment decides is in the action: the clock, the rows a publisher's `SKIP LOCKED` passes over,
the answer to every `XADD`, which entry is delivered to whom, how a handler ends, and which calls
fail, before or after their commit.

The stream keeps every entry that was added; an entry can be delivered any number of times, by
several consumers at once and even after it was acknowledged, so deliveries are duplicated, delayed
and reordered at will. The session guard is mutual exclusion: a session has at most one holder, and
a process that dies gives it up. `Store.resolve_failed` runs while its caller holds the guard of the
command's session, as its docstring asks.
-/

namespace ExAgent.Worker

open Lib

/-- An entry of the command stream as the consumer group sees it. -/
structure Entry where
  /-- The published fields. -/
  fields : Fields
  /-- Whether `XACK` was called for it. -/
  acked : Bool
  /-- Whether it was moved to the dead-letter stream. -/
  dead : Bool
  /-- The consumer's retry counter for it. -/
  retries : ℕ

/-- What a publisher knows of the `XADD` of a row. -/
inductive XaddResult
  | unknown
  | sent
  | failed
deriving DecidableEq

/-- A row of a publisher's batch. -/
structure BatchRow where
  commandId : Uuid
  generation : ℕ
  result : XaddResult

/-- An `advance` transaction that has read and not yet written. -/
structure Routing where
  eventTypes : List String
  limit : ℕ
  read : AdvanceRead

/-- The constants of a deployment. -/
structure Config where
  /-- The namespace of the store. -/
  nspace : String
  /-- `uuid5(NAMESPACE_URL, f"{namespace}/event/{event_id}")`. -/
  commandIdOf : Uuid → Uuid
  /-- The consumer's `max_retry_attempts`. -/
  maxRetryAttempts : ℕ

/-- The state of the whole worker. -/
structure State where
  db : Db
  /-- The open `advance` transactions, by the binding row they have locked. -/
  routing : Uuid → Option Routing
  /-- The stream's entries, oldest first. -/
  stream : List Entry
  /-- The publishers' batches, by claim token. -/
  batches : Uuid → Option (List BatchRow)
  /-- The consumer processes. -/
  procs : ℕ → Option Proc
  /-- The holder of each session's guard. -/
  guard : String → Option ℕ
  /-- The claim tokens given so far. -/
  tokens : List Uuid

/-- The worker before its first step. -/
def State.initial : State :=
  ⟨.empty, fun _ => none, [], fun _ => none, fun _ => none, fun _ => none, []⟩

/-- How a call that leaves a process ends: as the code wants it, with an error (raised before or
after the effect took place), or, for the handler, with its outcome. -/
inductive Choice
  | ok
  | fault (committed : Bool)
  | outcome (o : HandlerOutcome)

/-- The steps of the worker. -/
inductive Action
  | register (now : Time) (executionId : Uuid) (sessionId taskId actor : String)
  | ingest (event : ExecutorEvent) (catchUp : Bool)
  | finishCatchUp (executionId : Uuid) (version : ℕ)
  | scanError (now : Time) (executionId : Uuid) (error : String)
  /-- `advance` takes the row lock and reads. -/
  | advanceBegin (executionId : Uuid) (eventTypes : List String) (limit : ℕ)
  /-- `advance` writes and commits, or raises and is rolled back. -/
  | advanceCommit (now : Time) (executionId : Uuid)
  /-- `advance` fails, or its process dies; the transaction is rolled back. -/
  | advanceAbort (executionId : Uuid)
  | claimOutbox (now : Time) (locked : List Uuid) (limit leaseSeconds : ℕ) (token : Uuid)
  /-- The `XADD` of one row of a batch: whether the entry was added, and what the reply says. -/
  | xadd (token : Uuid) (row : ℕ) (added : Bool) (reply : XaddResult)
  | finishPublications (token : Uuid) (sent : Bool)
  /-- The publisher of a batch dies; its claims stay until they expire. -/
  | publisherDies (token : Uuid)
  /-- The consumer group gives an entry to a process. -/
  | deliver (proc : ℕ) (entry : ℕ) (handlers : List String) (maxAttempts : ℕ)
  /-- A consumer process moves. -/
  | work (proc : ℕ) (choice : Choice)
  | processDies (proc : ℕ)
  | resolveFailed (commandId : Uuid) (retry : Bool) (actor reason : String)

/-! ## Moves of a consumer process -/

/-- The process stands somewhere else. -/
def State.goto (s : State) (p : ℕ) (proc : Proc) (pc : Pc) : State :=
  { s with procs := Function.update s.procs p (some { proc with pc := pc }) }

/-- The process leaves the guarded section. -/
def State.release (s : State) (t : Target) : State :=
  { s with guard := Function.update s.guard t.sessionId none }

/-- The process is gone. -/
def State.drop (s : State) (p : ℕ) : State :=
  { s with procs := Function.update s.procs p none }

/-- `set_state` for the process's command. -/
def State.write (s : State) (t : Target) (w : StateWrite) : State :=
  { s with db := setState s.db t.commandId w.state w.error w.failedAttempt }

/-- The entry is rewritten. -/
def State.mark (s : State) (i : ℕ) (f : Entry → Entry) : State :=
  { s with stream := s.stream.modify i f }

/-! ## What a move leaves alone -/

section Frame

variable (s : State) (p : ℕ) (proc : Proc) (pc : Pc) (t : Target) (w : StateWrite) (i : ℕ)
  (f : Entry → Entry)

/-- A program point leaves the tables. -/
@[simp] theorem State.goto_db : (s.goto p proc pc).db = s.db := rfl

/-- It leaves the routing. -/
@[simp] theorem State.goto_routing : (s.goto p proc pc).routing = s.routing := rfl

/-- It leaves the stream. -/
@[simp] theorem State.goto_stream : (s.goto p proc pc).stream = s.stream := rfl

/-- It leaves the batches. -/
@[simp] theorem State.goto_batches : (s.goto p proc pc).batches = s.batches := rfl

/-- It leaves the guard. -/
@[simp] theorem State.goto_guard : (s.goto p proc pc).guard = s.guard := rfl

/-- It leaves the tokens. -/
@[simp] theorem State.goto_tokens : (s.goto p proc pc).tokens = s.tokens := rfl

/-- It is the point of that process. -/
@[simp] theorem State.goto_procs : (s.goto p proc pc).procs =
    Function.update s.procs p (some { proc with pc := pc }) := rfl

/-- A released guard leaves the tables. -/
@[simp] theorem State.release_db : (s.release t).db = s.db := rfl

/-- It leaves the routing. -/
@[simp] theorem State.release_routing : (s.release t).routing = s.routing := rfl

/-- It leaves the stream. -/
@[simp] theorem State.release_stream : (s.release t).stream = s.stream := rfl

/-- It leaves the batches. -/
@[simp] theorem State.release_batches : (s.release t).batches = s.batches := rfl

/-- It leaves the processes. -/
@[simp] theorem State.release_procs : (s.release t).procs = s.procs := rfl

/-- It leaves the tokens. -/
@[simp] theorem State.release_tokens : (s.release t).tokens = s.tokens := rfl

/-- The Session has no holder then. -/
@[simp] theorem State.release_guard : (s.release t).guard =
    Function.update s.guard t.sessionId none := rfl

/-- A process that is gone leaves the tables. -/
@[simp] theorem State.drop_db : (s.drop p).db = s.db := rfl

/-- It leaves the routing. -/
@[simp] theorem State.drop_routing : (s.drop p).routing = s.routing := rfl

/-- It leaves the stream. -/
@[simp] theorem State.drop_stream : (s.drop p).stream = s.stream := rfl

/-- It leaves the batches. -/
@[simp] theorem State.drop_batches : (s.drop p).batches = s.batches := rfl

/-- It leaves the guard. -/
@[simp] theorem State.drop_guard : (s.drop p).guard = s.guard := rfl

/-- It leaves the tokens. -/
@[simp] theorem State.drop_tokens : (s.drop p).tokens = s.tokens := rfl

/-- It is gone from the processes. -/
@[simp] theorem State.drop_procs : (s.drop p).procs = Function.update s.procs p none := rfl

/-- A written state is the command's. -/
@[simp] theorem State.write_db :
    (s.write t w).db = setState s.db t.commandId w.state w.error w.failedAttempt := rfl

/-- It leaves the routing. -/
@[simp] theorem State.write_routing : (s.write t w).routing = s.routing := rfl

/-- It leaves the stream. -/
@[simp] theorem State.write_stream : (s.write t w).stream = s.stream := rfl

/-- It leaves the batches. -/
@[simp] theorem State.write_batches : (s.write t w).batches = s.batches := rfl

/-- It leaves the guard. -/
@[simp] theorem State.write_guard : (s.write t w).guard = s.guard := rfl

/-- It leaves the processes. -/
@[simp] theorem State.write_procs : (s.write t w).procs = s.procs := rfl

/-- It leaves the tokens. -/
@[simp] theorem State.write_tokens : (s.write t w).tokens = s.tokens := rfl

/-- A marked entry leaves the tables. -/
@[simp] theorem State.mark_db : (s.mark i f).db = s.db := rfl

/-- It leaves the routing. -/
@[simp] theorem State.mark_routing : (s.mark i f).routing = s.routing := rfl

/-- The mark is on that entry of the stream. -/
@[simp] theorem State.mark_stream : (s.mark i f).stream = s.stream.modify i f := rfl

/-- It leaves the batches. -/
@[simp] theorem State.mark_batches : (s.mark i f).batches = s.batches := rfl

/-- It leaves the guard. -/
@[simp] theorem State.mark_guard : (s.mark i f).guard = s.guard := rfl

/-- It leaves the processes. -/
@[simp] theorem State.mark_procs : (s.mark i f).procs = s.procs := rfl

/-- It leaves the tokens. -/
@[simp] theorem State.mark_tokens : (s.mark i f).tokens = s.tokens := rfl

end Frame

/-- The write of `set_state(RUNNING)`. -/
def runningWrite : StateWrite := ⟨.running, none, false⟩

/-- `_ack`. -/
def Entry.ack (e : Entry) : Entry := { e with acked := true }

/-- `_dead_letter`: the copy and the acknowledgement are one transaction. -/
def Entry.deadLetter (e : Entry) : Entry := { e with acked := true, dead := true, retries := 0 }

/-- The retry counter of `_retry_or_dead_letter`. -/
def Entry.countRetry (e : Entry) : Entry := { e with retries := e.retries + 1 }

/-- `_handle_and_finalize` after `handle`. -/
def State.finalize (cfg : Config) (s : State) (p : ℕ) (proc : Proc) (h : Handled) : State :=
  match h with
  | .permanent _ => (s.mark proc.entry Entry.deadLetter).drop p
  | .raised reason => retry reason
  | .result r =>
    match r.decision with
    | .ack => (s.mark proc.entry Entry.ack).drop p
    | .defer => s.drop p
    | .retry => retry (r.reason.getD "handler retry limit exhausted")
    | .deadLetter => (s.mark proc.entry Entry.deadLetter).drop p
where
  /-- `_retry_or_dead_letter`, up to its dead-letter write. -/
  retry (reason : String) : State :=
    let counted := s.mark proc.entry Entry.countRetry
    match s.stream[proc.entry]? with
    | none => counted.drop p
    | some e =>
      if e.retries + 1 < cfg.maxRetryAttempts then counted.drop p
      else counted.goto p proc (.exhausted reason)

/-- One move of a consumer process. A database or Redis error anywhere in `handle` ends it with the
result `DEFER`; inside the guarded section it gives up the guard. -/
def State.work (cfg : Config) (s : State) (p : ℕ) (proc : Proc) : Pc → Choice → Option State
  | .received, .ok =>
    match decodeEnvelope cfg.nspace proc.fields with
    | .error reason => some (s.goto p proc (.finished (.permanent reason)))
    | .ok (commandId, generation) =>
      match command s.db commandId with
      | none => some (s.goto p proc (.finished (.permanent "Unknown command ID")))
      | some view => some (s.goto p proc (.located ⟨commandId, generation, view.sessionId⟩))
  | .received, .fault _ => some (s.goto p proc (.finished .deferred))
  | .located t, .ok =>
    if s.guard t.sessionId = none then
      some ({ s with guard := Function.update s.guard t.sessionId (some p) }.goto p
        proc (.holding t))
    -- `DeferEvent("Session is being invoked by another process")`
    else some (s.goto p proc (.finished .deferred))
  | .located _, .fault _ => some (s.goto p proc (.finished .deferred))
  | .holding t, .ok =>
    match dispatchCheck proc.handlers t.generation (command s.db t.commandId) with
    | .finish h => some (s.goto p proc (.leaving t h))
    | .run view => some (s.goto p proc (.accepted t view))
  | .holding t, .fault _ => some (s.goto p proc (.leaving t .deferred))
  | .accepted t view, .ok => some ((s.write t runningWrite).goto p proc (.started t view))
  | .accepted t _, .fault committed =>
    some ((if committed then s.write t runningWrite else s).goto p proc (.leaving t .deferred))
  | .started t view, .ok => some (s.goto p proc (.invoked t view))
  | .started t _, .fault _ => some (s.goto p proc (.leaving t .deferred))
  | .invoked t view, .outcome o =>
    match afterHandler proc.maxAttempts view.row.failureAttempts o with
    | (none, h) => some (s.goto p proc (.leaving t h))
    | (some w, h) => some (s.goto p proc (.ended t w h))
  | .invoked t _, .fault _ => some (s.goto p proc (.leaving t .deferred))
  | .ended t w h, .ok => some ((s.write t w).goto p proc (.leaving t h))
  | .ended t w _, .fault committed =>
    some ((if committed then s.write t w else s).goto p proc (.leaving t .deferred))
  | .leaving t h, .ok => some ((s.release t).goto p proc (.finished h))
  -- The lease was lost: `LeaseLostError` replaces the result.
  | .leaving t _, .fault _ => some ((s.release t).goto p proc (.finished .deferred))
  | .finished h, .ok => some (s.finalize cfg p proc h)
  | .finished h, .fault committed =>
    some (if committed then (s.finalize cfg p proc h).drop p else s.drop p)
  | .exhausted _, .ok => some ((s.mark proc.entry Entry.deadLetter).drop p)
  | .exhausted _, .fault committed =>
    some (if committed then (s.mark proc.entry Entry.deadLetter).drop p else s.drop p)
  | _, _ => none

/-! ## Every move of a process

`Move` lists what a consumer process can do, one constructor for each way its code can go on at a
point, with what it has read there. Faults that write nothing are two constructors for the whole
call, one outside and one inside the guarded section. -/

/-- The moves of a process that stands at a point. -/
inductive Move (cfg : Config) (s : State) (p : ℕ) (proc : Proc) : Pc → State → Prop
  /-- The envelope does not decode. -/
  | unreadable {reason : String} (h : decodeEnvelope cfg.nspace proc.fields = .error reason) :
      Move cfg s p proc .received (s.goto p proc (.finished (.permanent reason)))
  /-- The command does not exist. -/
  | unknown {c : Uuid} {g : ℕ} (h : decodeEnvelope cfg.nspace proc.fields = .ok (c, g))
      (hc : command s.db c = none) :
      Move cfg s p proc .received (s.goto p proc (.finished (.permanent "Unknown command ID")))
  /-- The session is read from the command. -/
  | locate {c : Uuid} {g : ℕ} {view : CommandView}
      (h : decodeEnvelope cfg.nspace proc.fields = .ok (c, g)) (hc : command s.db c = some view) :
      Move cfg s p proc .received (s.goto p proc (.located ⟨c, g, view.sessionId⟩))
  /-- The guard is free and taken. -/
  | acquire {t : Target} (h : s.guard t.sessionId = none) :
      Move cfg s p proc (.located t)
        ({ s with guard := Function.update s.guard t.sessionId (some p) }.goto p proc (.holding t))
  /-- The call ends with `DEFER` before it has the guard. -/
  | giveUp {pc : Pc} (h : pc = .received ∨ ∃ t, pc = .located t) :
      Move cfg s p proc pc (s.goto p proc (.finished .deferred))
  /-- The row read under the guard ends the call. -/
  | stop {t : Target} {h : Handled}
      (hd : dispatchCheck proc.handlers t.generation (command s.db t.commandId) = .finish h) :
      Move cfg s p proc (.holding t) (s.goto p proc (.leaving t h))
  /-- The row read under the guard is to be run. -/
  | accept {t : Target} {view : CommandView}
      (hd : dispatchCheck proc.handlers t.generation (command s.db t.commandId) = .run view) :
      Move cfg s p proc (.holding t) (s.goto p proc (.accepted t view))
  /-- `RUNNING` is written. -/
  | start {t : Target} {view : CommandView} :
      Move cfg s p proc (.accepted t view) ((s.write t runningWrite).goto p proc (.started t view))
  /-- `RUNNING` is written, and the call raises all the same. -/
  | startLost {t : Target} {view : CommandView} :
      Move cfg s p proc (.accepted t view)
        ((s.write t runningWrite).goto p proc (.leaving t .deferred))
  /-- The handler is called. -/
  | invoke {t : Target} {view : CommandView} :
      Move cfg s p proc (.started t view) (s.goto p proc (.invoked t view))
  /-- The handler's outcome asks for a last write. -/
  | judge {t : Target} {view : CommandView} {o : HandlerOutcome} {w : StateWrite} {h : Handled}
      (ha : afterHandler proc.maxAttempts view.row.failureAttempts o = (some w, h)) :
      Move cfg s p proc (.invoked t view) (s.goto p proc (.ended t w h))
  /-- The last state is written. -/
  | settle {t : Target} {w : StateWrite} {h : Handled} :
      Move cfg s p proc (.ended t w h) ((s.write t w).goto p proc (.leaving t h))
  /-- The last state is written, and the call raises all the same. -/
  | settleLost {t : Target} {w : StateWrite} {h : Handled} :
      Move cfg s p proc (.ended t w h) ((s.write t w).goto p proc (.leaving t .deferred))
  /-- The call ends with `DEFER` inside the guarded section. -/
  | abandon {pc : Pc} {t : Target} (h : pc.guarded = some t) :
      Move cfg s p proc pc (s.goto p proc (.leaving t .deferred))
  /-- The guard is released; a lost lease turns the result into `DEFER`. -/
  | leave {t : Target} {h h' : Handled} (hh : h' = h ∨ h' = .deferred) :
      Move cfg s p proc (.leaving t h) ((s.release t).goto p proc (.finished h'))
  /-- The consumer acknowledges. -/
  | ack {r : HandlerResult} (hr : r.decision = .ack) :
      Move cfg s p proc (.finished (.result r)) ((s.mark proc.entry Entry.ack).drop p)
  /-- The consumer moves the message to the dead-letter stream. -/
  | deadLetter {pc : Pc} (h : (∃ reason, pc = .finished (.permanent reason)) ∨
      (∃ r, pc = .finished (.result r) ∧ r.decision = .deadLetter) ∨
      ∃ reason, pc = .exhausted reason) :
      Move cfg s p proc pc ((s.mark proc.entry Entry.deadLetter).drop p)
  /-- The consumer counts a retry. -/
  | count {h : Handled} (hr : (∃ reason, h = .raised reason) ∨
      ∃ r, h = .result r ∧ r.decision = .retry) :
      Move cfg s p proc (.finished h) ((s.mark proc.entry Entry.countRetry).drop p)
  /-- The consumer counts the last retry. -/
  | exhaust {h : Handled} {reason : String} (hr : (∃ reason, h = .raised reason) ∨
      ∃ r, h = .result r ∧ r.decision = .retry) :
      Move cfg s p proc (.finished h)
        ((s.mark proc.entry Entry.countRetry).goto p proc (.exhausted reason))
  /-- The consumer leaves the message pending. -/
  | keep {pc : Pc} (h : pc.guarded = none) : Move cfg s p proc pc (s.drop p)

/-- Dropping a process twice. -/
theorem State.drop_drop (s : State) (p : ℕ) : (s.drop p).drop p = s.drop p := by
  simp [State.drop]

/-- Dropping a process that has just moved. -/
theorem State.drop_goto (s : State) (p : ℕ) (proc : Proc) (pc : Pc) :
    (s.goto p proc pc).drop p = s.drop p := by
  simp [State.drop, State.goto]

/-- The consumer's last call is one of the moves. -/
theorem State.finalize_move (cfg : Config) (s : State) (p : ℕ) (proc : Proc) (h : Handled) :
    Move cfg s p proc (.finished h) (s.finalize cfg p proc h) ∧
      Move cfg s p proc (.finished h) ((s.finalize cfg p proc h).drop p) := by
  -- The retry path, from either of the two results that lead to it.
  have hretry : ∀ reason, ((∃ reason, h = .raised reason) ∨
      ∃ r, h = .result r ∧ r.decision = .retry) →
      Move cfg s p proc (.finished h) (finalize.retry cfg s p proc reason) ∧
        Move cfg s p proc (.finished h) ((finalize.retry cfg s p proc reason).drop p) := by
    intro reason hr
    unfold finalize.retry
    dsimp only
    split
    · rw [State.drop_drop]
      exact ⟨.count hr, .count hr⟩
    · split
      · rw [State.drop_drop]
        exact ⟨.count hr, .count hr⟩
      · rw [State.drop_goto]
        exact ⟨.exhaust hr, .count hr⟩
  cases h with
  | permanent reason =>
    simp only [State.finalize, State.drop_drop]
    exact ⟨.deadLetter (.inl ⟨reason, rfl⟩), .deadLetter (.inl ⟨reason, rfl⟩)⟩
  | raised reason => exact hretry reason (.inl ⟨reason, rfl⟩)
  | result r =>
    unfold State.finalize
    dsimp only
    split
    · rename_i hd
      rw [State.drop_drop]
      exact ⟨.ack hd, .ack hd⟩
    · rw [State.drop_drop]
      exact ⟨.keep rfl, .keep rfl⟩
    · rename_i hd
      exact hretry _ (.inr ⟨r, rfl, hd⟩)
    · rename_i hd
      rw [State.drop_drop]
      exact ⟨.deadLetter (.inr (.inl ⟨r, rfl, hd⟩)), .deadLetter (.inr (.inl ⟨r, rfl, hd⟩))⟩

/-- `afterHandler` without a last write ends the call with `DEFER`. -/
theorem afterHandler_none {maxAttempts failureAttempts : ℕ} {o : HandlerOutcome} {h : Handled}
    (ha : afterHandler maxAttempts failureAttempts o = (none, h)) : h = .deferred := by
  cases o with
  | raisedDefer => simpa [afterHandler] using ha.symm
  | returned => simp [afterHandler] at ha
  | raisedIgnore m => simp [afterHandler] at ha
  | raisedReject m => simp [afterHandler, afterHandler.failure] at ha
  | raisedOther n m =>
    simp only [afterHandler, afterHandler.failure] at ha
    split at ha <;> simp at ha

/-- A step of a process is one of the moves. -/
theorem State.work_move {cfg : Config} {s s' : State} {p : ℕ} {proc : Proc} {pc : Pc} {c : Choice}
    (h : s.work cfg p proc pc c = some s') : Move cfg s p proc pc s' := by
  cases pc with
  | received =>
    cases c with
    | ok =>
      -- The message is unreadable, of an unknown command, or its session is looked up.
      simp only [State.work] at h
      split at h
      · obtain rfl := Option.some.inj h
        exact .unreadable ‹_›
      · split at h
        · obtain rfl := Option.some.inj h
          exact .unknown ‹_› ‹_›
        · obtain rfl := Option.some.inj h
          exact .locate ‹_› ‹_›
    | fault b =>
      obtain rfl := Option.some.inj h
      exact .giveUp (.inl rfl)
    | outcome o => cases h
  | located t =>
    cases c with
    | ok =>
      -- The guard is free, or the delivery gives up.
      simp only [State.work] at h
      split at h
      · obtain rfl := Option.some.inj h
        exact .acquire ‹_›
      · obtain rfl := Option.some.inj h
        exact .giveUp (.inr ⟨t, rfl⟩)
    | fault b =>
      obtain rfl := Option.some.inj h
      exact .giveUp (.inr ⟨t, rfl⟩)
    | outcome o => cases h
  | holding t =>
    cases c with
    | ok =>
      -- With the guard held, the command's row is read again.
      simp only [State.work] at h
      split at h
      · obtain rfl := Option.some.inj h
        exact .stop ‹_›
      · obtain rfl := Option.some.inj h
        exact .accept ‹_›
    | fault b =>
      obtain rfl := Option.some.inj h
      exact .abandon rfl
    | outcome o => cases h
  | accepted t view =>
    cases c with
    | ok =>
      obtain rfl := Option.some.inj h
      exact .start
    | fault b =>
      obtain rfl := Option.some.inj h
      -- The write may have committed although its reply was lost.
      cases b with
      | true => exact .startLost
      | false => exact .abandon rfl
    | outcome o => cases h
  | started t view =>
    cases c with
    | ok =>
      obtain rfl := Option.some.inj h
      exact .invoke
    | fault b =>
      obtain rfl := Option.some.inj h
      exact .abandon rfl
    | outcome o => cases h
  | invoked t view =>
    cases c with
    | ok => cases h
    | fault b =>
      obtain rfl := Option.some.inj h
      exact .abandon rfl
    | outcome o =>
      -- The handler's outcome is a write of the row's state, or nothing to be written.
      simp only [State.work] at h
      split at h
      · rename_i ha
        obtain rfl := Option.some.inj h
        rw [afterHandler_none ha]
        exact .abandon rfl
      · obtain rfl := Option.some.inj h
        exact .judge ‹_›
  | ended t w hd =>
    cases c with
    | ok =>
      obtain rfl := Option.some.inj h
      exact .settle
    | fault b =>
      obtain rfl := Option.some.inj h
      -- As before, a lost reply may follow a write that has committed.
      cases b with
      | true => exact .settleLost
      | false => exact .abandon rfl
    | outcome o => cases h
  | leaving t hd =>
    cases c with
    | ok =>
      obtain rfl := Option.some.inj h
      exact .leave (.inl rfl)
    | fault b =>
      obtain rfl := Option.some.inj h
      exact .leave (.inr rfl)
    | outcome o => cases h
  | finished hd =>
    cases c with
    | ok =>
      obtain rfl := Option.some.inj h
      exact (s.finalize_move cfg p proc hd).1
    | fault b =>
      obtain rfl := Option.some.inj h
      -- The acknowledgement may have reached the stream although its reply was lost.
      cases b with
      | true => exact (s.finalize_move cfg p proc hd).2
      | false => exact .keep rfl
    | outcome o => cases h
  | exhausted reason =>
    cases c with
    | ok =>
      obtain rfl := Option.some.inj h
      exact .deadLetter (.inr (.inr ⟨reason, rfl⟩))
    | fault b =>
      obtain rfl := Option.some.inj h
      cases b with
      | true => exact .deadLetter (.inr (.inr ⟨reason, rfl⟩))
      | false => exact .keep rfl
    | outcome o => cases h

/-! ## The step function -/

/-- A process dies; a guard it holds expires. -/
def State.die (s : State) (p : ℕ) (proc : Proc) : State :=
  match proc.pc.guarded with
  | some t => (s.release t).drop p
  | none => s.drop p

/-- A death leaves the database alone. -/
@[simp] theorem State.die_db (s : State) (p : ℕ) (proc : Proc) : (s.die p proc).db = s.db := by
  unfold State.die
  split <;> rfl

/-- A death leaves the stream alone. -/
@[simp] theorem State.die_stream (s : State) (p : ℕ) (proc : Proc) :
    (s.die p proc).stream = s.stream := by
  unfold State.die
  split <;> rfl

/-- A death leaves the publishers alone. -/
@[simp] theorem State.die_batches (s : State) (p : ℕ) (proc : Proc) :
    (s.die p proc).batches = s.batches := by
  unfold State.die
  split <;> rfl

/-- The reply to an `XADD`, entered into the batch. -/
def setReply (rows : List BatchRow) (row : ℕ) (reply : XaddResult) : List BatchRow :=
  rows.modify row fun r => { r with result := reply }

/-- The command ids of a batch with the given reply. -/
def repliedIds (rows : List BatchRow) (reply : XaddResult) : List Uuid :=
  (rows.filter fun r => r.result = reply).map BatchRow.commandId

/-- The session of a command, through its execution's binding. -/
def sessionOf (db : Db) (commandId : Uuid) : Option String :=
  (db.commands.get commandId).bind fun c =>
    (db.bindings.get c.executionId).map Binding.sessionId

/-- A transaction of the store on the state: when it raises, nothing is written. -/
def State.commit (s : State) (r : Except StoreError Db) : State :=
  match r with
  | .ok db => { s with db := db }
  | .error _ => s

/-- One step of the worker. -/
def step (cfg : Config) (s : State) : Action → Option State
  | .register now executionId sessionId taskId actor =>
    some (s.commit (register s.db now executionId sessionId taskId actor))
  | .ingest event catchUp =>
    -- The catch-up counter waits for the row lock of a running `advance`.
    if catchUp ∧ (s.routing event.executionId).isSome then none
    else some (s.commit (ingest s.db event catchUp))
  | .finishCatchUp executionId version =>
    if (s.routing executionId).isSome then none
    else some { s with db := finishCatchUp s.db executionId version }
  | .scanError now executionId error =>
    if (s.routing executionId).isSome then none
    else some { s with db := scanError s.db now executionId error }
  | .advanceBegin executionId eventTypes limit =>
    if (s.routing executionId).isSome then none
    else
      match advanceRead s.db executionId with
      | none => some s
      | some read =>
        some { s with
          routing := Function.update s.routing executionId (some ⟨eventTypes, limit, read⟩) }
  | .advanceCommit now executionId =>
    match s.routing executionId with
    | none => none
    | some r =>
      let closed := { s with routing := Function.update s.routing executionId none }
      match advanceWrite cfg.commandIdOf now executionId r.eventTypes r.limit r.read s.db with
      | .error _ => some closed
      | .ok (db, _, _) => some { closed with db := db }
  | .advanceAbort executionId =>
    some { s with routing := Function.update s.routing executionId none }
  | .claimOutbox now locked limit leaseSeconds token =>
    -- `uuid4()` gives a token that was not given before.
    if token ∈ s.tokens then none
    else
      let (db, rows) := claimOutbox s.db now locked limit leaseSeconds token
      some { s with
        db := db
        tokens := token :: s.tokens
        batches := Function.update s.batches token
          (some (rows.map fun r => ⟨r.1, r.2, .unknown⟩)) }
  | .xadd token row added reply =>
    match s.batches token with
    | none => none
    | some rows =>
      match rows[row]? with
      | none => none
      | some r =>
        -- Each row is sent once, and a reply that reports success is never wrong. A reply that is
        -- lost raises, which is the death of the publisher.
        if r.result ≠ .unknown ∨ reply = .unknown ∨ (reply = .sent ∧ ¬ added) then none
        else some { s with
          stream := if added
            then s.stream ++ [⟨publishFields cfg.nspace r.commandId r.generation, false, false, 0⟩]
            else s.stream
          batches := Function.update s.batches token (some (setReply rows row reply)) }
  | .finishPublications token sent =>
    match s.batches token with
    | none => none
    | some rows =>
      -- The pipeline has returned a result for every row.
      if rows.any fun r => r.result = .unknown then none
      else some { s with
        db := finishPublications s.db token
          (repliedIds rows (if sent then .sent else .failed)) sent }
  | .publisherDies token => some { s with batches := Function.update s.batches token none }
  | .deliver p i handlers maxAttempts =>
    match s.procs p, s.stream[i]? with
    | none, some e =>
      some { s with
        procs := Function.update s.procs p (some ⟨i, e.fields, handlers, maxAttempts, .received⟩) }
    | _, _ => none
  | .work p choice =>
    match s.procs p with
    | none => none
    | some proc => s.work cfg p proc proc.pc choice
  | .processDies p =>
    match s.procs p with
    | none => none
    | some proc => some (s.die p proc)
  | .resolveFailed commandId retry actor reason =>
    -- The caller holds the guard of the command's session for the whole call.
    match sessionOf s.db commandId with
    | none => some (s.commit (resolveFailed s.db commandId retry actor reason))
    | some sessionId =>
      if (s.guard sessionId).isSome then none
      else some (s.commit (resolveFailed s.db commandId retry actor reason))

/-- The worker as a transition system. -/
def worker (cfg : Config) : Machine State Action := ⟨fun s => s = .initial, step cfg⟩

end ExAgent.Worker
