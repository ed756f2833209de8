import ExAgent.Worker.Store

/-!
# The dispatcher

`Dispatcher.handle` and `Dispatcher._dispatch` of `worker/dispatcher.py`, cut at the points where
the process waits for the database, for Redis or for the handler. Between two such points the code
only computes, and the functions here are those computations: reading the envelope, deciding from
the row read under the session guard, and choosing the final state from the handler's outcome. The
position of a process between the points is a `Pc`, and the system moves it.
-/

namespace ExAgent.Worker

/-- The fields of a stream message, as `handle` reads them: a text that may be absent, and a number
or the text of the `KeyError` or `ValueError` that reading it raises. -/
structure Fields where
  schemaVersion : Option String
  nspace : Option String
  commandId : Except String Uuid
  generation : Except String ℕ

/-- The fields `Outbox.once` publishes for a claimed row. -/
def publishFields (nspace : String) (commandId : Uuid) (generation : ℕ) : Fields :=
  ⟨some "1", some nspace, .ok commandId, .ok generation⟩

/-- How a call of `Dispatcher.handle` ends. -/
inductive Handled
  /-- It returned a result. -/
  | result (r : HandlerResult)
  /-- It raised `PermanentMessageError`. -/
  | permanent (reason : String)
  /-- It raised another exception, which the consumer turns into a retry. -/
  | raised (reason : String)
deriving DecidableEq

/-- `HandlerResult(AckDecision.DEFER, outcome="deferred")`. -/
def Handled.deferred : Handled := .result ⟨.defer, "deferred", none⟩

/-- The envelope checks at the head of `Dispatcher.handle`. -/
def decodeEnvelope (nspace : String) (fields : Fields) : Except String (Uuid × ℕ) :=
  match fields.schemaVersion with
  | none => .error "'schema_version'"
  | some version =>
    if version ≠ "1" then .error "Unsupported command envelope"
    else
      match fields.nspace with
      | none => .error "'namespace'"
      | some ns =>
        if ns ≠ nspace then .error "Unsupported command envelope"
        else
          match fields.commandId, fields.generation with
          | .error e, _ => .error e
          | .ok _, .error e => .error e
          | .ok commandId, .ok generation => .ok (commandId, generation)

/-- A published message is read back as the row it was published for. -/
@[simp]
theorem decodeEnvelope_publishFields (nspace : String) (commandId : Uuid) (generation : ℕ) :
    decodeEnvelope nspace (publishFields nspace commandId generation) =
      .ok (commandId, generation) := by
  simp [decodeEnvelope, publishFields]

/-- The decision of `Dispatcher._dispatch` from the row it reads under the guard. -/
inductive Verdict
  /-- It ends without running the handler. -/
  | finish (h : Handled)
  /-- It goes on to run the handler. -/
  | run (view : CommandView)

/-- `_dispatch` up to its first `set_state`. -/
def dispatchCheck (handlers : List String) (generation : ℕ) : Option CommandView → Verdict
  | none => .finish (.raised "AssertionError")
  | some view =>
    if generation ≠ view.row.generation then .finish (.result ⟨.ack, "old_generation", none⟩)
    else if view.row.state = .done ∨ view.row.state = .ignored then
      .finish (.result ⟨.ack, "duplicate", none⟩)
    else if view.row.state = .failed then
      .finish (.permanent (match view.row.lastError with
        | none => "Failed command"
        | some e => if e = "" then "Failed command" else e))
    -- A replica with different code must not silently discard work: `DeferEvent`.
    else if view.event.eventType ∉ handlers then .finish .deferred
    else .run view

/-- A `set_state` call: the state, the error, and whether it counts as a failed attempt. -/
structure StateWrite where
  state : CommandState
  error : Option String
  failedAttempt : Bool
deriving DecidableEq

/-- `_dispatch` after its handler: the last `set_state`, when there is one, and how the call ends
once that is written. -/
def afterHandler (maxAttempts failureAttempts : ℕ) :
    HandlerOutcome → Option StateWrite × Handled
  | .returned => (some ⟨.done, none, false⟩, .result ⟨.ack, "succeeded", none⟩)
  | .raisedDefer => (none, .deferred)
  | .raisedIgnore message =>
    (some ⟨.ignored, some message, false⟩, .result ⟨.ack, "ignored", none⟩)
  | .raisedReject message => failure true ("RejectEvent: " ++ message)
  | .raisedOther typeName message =>
    failure (decide (maxAttempts ≤ failureAttempts + 1)) (typeName ++ ": " ++ message)
where
  /-- The branch for exceptions that count as failures. -/
  failure (terminal : Bool) (reason : String) : Option StateWrite × Handled :=
    if terminal then (some ⟨.failed, some reason, true⟩, .permanent reason)
    -- The pending list owns redelivery.
    else (some ⟨.running, some reason, true⟩, .result ⟨.defer, "handler_retry", none⟩)

/-- What a process knows of the command its message names. -/
structure Target where
  commandId : Uuid
  generation : ℕ
  sessionId : String
deriving DecidableEq

/-- Where a process stands in `_handle_and_finalize`. -/
inductive Pc
  /-- The message was delivered; `handle` starts with the envelope and the first read. -/
  | received
  /-- The first read gave the session; the guard is asked for next. -/
  | located (t : Target)
  /-- The guard is held; `_dispatch` reads the row next. -/
  | holding (t : Target)
  /-- The checks passed; `set_state(RUNNING)` is next. -/
  | accepted (t : Target) (view : CommandView)
  /-- `RUNNING` is written; the handler is called next. -/
  | started (t : Target) (view : CommandView)
  /-- The handler runs. -/
  | invoked (t : Target) (view : CommandView)
  /-- The handler has ended; the last `set_state` is next. -/
  | ended (t : Target) (write : StateWrite) (h : Handled)
  /-- `_dispatch` has ended; the guard is released next. -/
  | leaving (t : Target) (h : Handled)
  /-- `handle` has ended; the consumer acknowledges, retries or dead-letters next. -/
  | finished (h : Handled)
  /-- The consumer counted the last retry; the dead-letter write is next. -/
  | exhausted (reason : String)

/-- The session whose guard a process holds, if it holds one. -/
def Pc.guarded : Pc → Option Target
  | .holding t | .accepted t _ | .started t _ | .invoked t _ | .ended t _ _ | .leaving t _ => some t
  | .received | .located _ | .finished _ | .exhausted _ => none

/-- A consumer process working on one stream message. -/
structure Proc where
  /-- The stream entry it was given. -/
  entry : ℕ
  /-- The message's fields. -/
  fields : Fields
  /-- The event types its replica has handlers for. -/
  handlers : List String
  /-- The `max_attempts` of its replica. -/
  maxAttempts : ℕ
  /-- Where it stands. -/
  pc : Pc

end ExAgent.Worker
