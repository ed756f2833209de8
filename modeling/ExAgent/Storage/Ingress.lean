import ExAgent.Storage.Inbox
import ExAgent.Worker.Consumer

/-!
# Messages that cannot be stored

`Ingress.handle` of `worker/ingress.py` over the inbox of a healthy database, with
`ExecutorEvent.from_redis`. A message that is no event is refused for good. A database error is
taken for an unavailable inbox and defers the message; but the columns also refuse events that
pydantic accepts, and such a message is deferred at every delivery.

What pydantic and `json.loads` decide is an argument. Nothing is assumed of it.
-/

namespace ExAgent.Storage.Events

open Lib
open Worker.RedisStreamConsumer (AckDecision Handled HandlerResult StreamMessage)

/-- The fields of a stream entry, as the client decodes them. -/
abbrev Fields := List (String × String)

/-- The exceptions of `ExecutorEvent.from_redis`. -/
inductive ReadError
  | keyError (key : String)
  /-- Also the `ValidationError` of pydantic. -/
  | valueError (message : String)
  /-- The payload is nested too deeply. -/
  | recursionError (message : String)

/-- The library functions that read a message. -/
structure Readers where
  /-- `json.loads`. -/
  loads : String → Except ReadError (PyJson .value)
  /-- `ExecutorEvent.model_validate` of the fields with the payload that was read. -/
  modelValidate : Fields → PyJson .value → Except String ExecutorEvent

/-- `ExecutorEvent.from_redis`. -/
def fromRedis (L : Readers) (fields : Fields) : Except ReadError ExecutorEvent :=
  match fields.lookup "payload" with
  | none => .error (.keyError "'payload'")
  | some text =>
    match L.loads text with
    | .error error => .error error
    | .ok payload =>
      match L.modelValidate fields payload with
      | .error message => .error (.valueError message)
      | .ok event => .ok event

/-- `HandlerResult(AckDecision.ACK)`. -/
def acknowledged : HandlerResult := ⟨.ack, "succeeded", none, none⟩

/-- `HandlerResult(AckDecision.DEFER, outcome="database_wait")`. -/
def databaseWait : HandlerResult := ⟨.defer, "database_wait", none, none⟩

/-- `Ingress.handle`. -/
def handle (P : Platform) (L : Readers) (db : Inbox) (message : StreamMessage Fields) :
    Handled × Inbox :=
  match fromRedis L message.fields with
  | .error (.keyError text) => (.permanent text, db)
  | .error (.valueError text) => (.permanent text, db)
  | .error (.recursionError text) => (.raised "RecursionError" text, db)
  | .ok event =>
    match ingest P db event message.reclaimed with
    | .ok db' => (.returned acknowledged, db')
    | .error (.valueError text) => (.permanent text, db)
    | .error .databaseError => (.returned databaseWait, db)

variable {P : Platform} {L : Readers} {db db' : Inbox} {message : StreamMessage Fields}
  {e : ExecutorEvent}

/-- The message is settled: acknowledged with its event in the inbox, or refused for good. -/
def Settled (P : Platform) (L : Readers) (db : Inbox) (message : StreamMessage Fields) : Prop :=
  (∃ e row db', fromRedis L message.fields = .ok e ∧
    handle P L db message = (.returned acknowledged, db') ∧
    db'.rows.get e.eventId = some row ∧ row.event.pyEq e = true) ∨
  ∃ text, handle P L db message = (.permanent text, db)

namespace Sample

/-- The event with an empty payload and a sequence. -/
def numbered (sequence : ℕ) (h : 1 ≤ sequence) : ExecutorEvent :=
  { event (.int 3) with
    eventSequence := sequence
    eventSequence_pos := h
    payload := ⟨.empty, PyObject.sorted_empty⟩ }

/-- A message with the sequence `2 ^ 63`. -/
def late : StreamMessage Fields :=
  ⟨(1, 0), [("payload", "{}"), ("event_sequence", "9223372036854775808")], false⟩

end Sample

end ExAgent.Storage.Events
