import Mathlib.Data.List.Sort
import ExAgent.Lib.Table
import ExAgent.Worker.Contracts

/-!
# The worker's store

`Store` of `worker/store.py` over the tables of one namespace. A method is a function on the
database that gives the database after its transaction, or the exception it raises; a transaction
that raises is rolled back, so an error carries no database. The clock, fresh claim tokens and the
rows another transaction has locked are arguments.

`advance` is split where the database gives up atomicity: `advanceRead` is what the transaction
reads under the row lock on the binding, and `advanceWrite` is what it writes afterwards. Statements
of other transactions can commit between the two, which is how the system of `Worker/System` runs
it.
-/

namespace ExAgent.Worker

open Lib

/-- The `ew_` tables of one namespace. -/
structure Db where
  bindings : Table Uuid Binding
  inbox : Table Uuid InboxRow
  commands : Table Uuid CommandRow
  outbox : Table Uuid OutboxRow
  audit : List AuditRow

/-- The database after the migration. -/
def Db.empty : Db := ⟨.empty, .empty, .empty, .empty, []⟩

/-- `error[:2000] if error else None`. -/
def clipError (error : Option String) : Option String :=
  match error with
  | none => none
  | some e => if e = "" then none else some (String.ofList (e.toList.take 2000))

/-! ## Bindings and the inbox -/

/-- `Store.register`. -/
def register (db : Db) (now : Time) (executionId : Uuid) (sessionId taskId actor : String) :
    Except StoreError Db :=
  if sessionId = "" ∨ taskId = "" ∨ actor = "" then
    .error (.valueError "session_id, task_id and actor are required")
  else
    let bindings := db.bindings.insertIfAbsent executionId
      ⟨sessionId, taskId, 0, now, none, 0, 0⟩
    match bindings.get executionId with
    | some b =>
      if b.sessionId = sessionId ∧ b.taskId = taskId then .ok { db with bindings := bindings }
      else .error (.valueError "Execution binding is immutable")
    | none => .error (.valueError "Execution binding is immutable")

/-- Whether a row holds the sequence of an execution: the table's second unique constraint. -/
def Db.sequenceTaken (db : Db) (executionId : Uuid) (sequence : ℕ) : Bool :=
  db.inbox.entries.any fun e => e.2.executionId = executionId ∧ e.2.sequence = sequence

/-- The insert of `Store.ingest`. `ON CONFLICT DO NOTHING` covers both unique constraints. -/
def ingestInsert (db : Db) (event : ExecutorEvent) : Table Uuid InboxRow :=
  if db.sequenceTaken event.executionId event.eventSequence then db.inbox
  else db.inbox.insertIfAbsent event.eventId
    ⟨event.executionId, event.eventSequence, event, .received⟩

/-- `Store.ingest`. -/
def ingest (db : Db) (event : ExecutorEvent) (catchUp : Bool) : Except StoreError Db :=
  let inbox := ingestInsert db event
  match inbox.get event.eventId with
  | none => .error (.valueError "Conflicting event identity or sequence")
  | some row =>
    if row.event = event then
      .ok { db with
        inbox := inbox
        bindings :=
          if catchUp then
            db.bindings.modifyAt event.executionId fun b =>
              { b with catchUpVersion := b.catchUpVersion + 1 }
          else db.bindings }
    else .error (.valueError "Conflicting event identity or sequence")

/-- `Store.finish_catch_up`. -/
def finishCatchUp (db : Db) (executionId : Uuid) (version : ℕ) : Db :=
  { db with bindings := db.bindings.modifyAt executionId fun b =>
      { b with caughtUpVersion := max b.caughtUpVersion version } }

/-- `Store.scan_error`. -/
def scanError (db : Db) (now : Time) (executionId : Uuid) (error : String) : Db :=
  { db with bindings := db.bindings.modifyAt executionId fun b =>
      { b with lastError := some (String.ofList (error.toList.take 2000)), nextScanAt := now + 5 } }

/-! ## Routing -/

/-- The second `SELECT` of `Store.advance`: the stored events after a sequence, in order, at most
`limit` of them. -/
def advanceRows (inbox : Table Uuid InboxRow) (executionId : Uuid) (sequence limit : ℕ) :
    List InboxRow :=
  (((inbox.entries.map Prod.snd).filter fun r =>
    r.executionId = executionId ∧ sequence < r.sequence).insertionSort
      fun a b => a.sequence ≤ b.sequence).take limit

/-- The writes of one iteration of `Store.advance`: a command with its outbox row when the type is
handled, and the state of the inbox row. An insert on a key that is present aborts. -/
def routeEvent (commandIdOf : Uuid → Uuid) (now : Time) (executionId : Uuid)
    (eventTypes : List String) (db : Db) (event : ExecutorEvent) : Except StoreError Db :=
  if event.eventType ∈ eventTypes then
    let commandId := commandIdOf event.eventId
    -- `ew_commands_namespace_event_id_key` is checked besides the primary key.
    if db.commands.entries.any fun e => e.2.eventId = event.eventId then .error .databaseError
    else
      match db.commands.insert commandId
          ⟨event.eventId, executionId, event.eventSequence, .ready, 0, 0, none⟩ with
      | none => .error .databaseError
      | some commands =>
        match db.outbox.insert commandId ⟨0, .pending, none, none, now⟩ with
        | none => .error .databaseError
        | some outbox =>
          .ok { db with
            commands := commands
            outbox := outbox
            inbox := db.inbox.modifyAt event.eventId fun r => { r with state := .routed } }
  else
    .ok { db with
      inbox := db.inbox.modifyAt event.eventId fun r => { r with state := .ignored } }

/-- Where the loop of `Store.advance` stands: the database, the sequence reached, the number of
events advanced, and the gap. -/
structure Progress where
  db : Db
  sequence : ℕ
  count : ℕ
  gap : Option ℕ

/-- The loop of `Store.advance` over the events it has read. -/
def routeLoop (commandIdOf : Uuid → Uuid) (now : Time) (executionId : Uuid)
    (eventTypes : List String) : List ExecutorEvent → Progress → Except StoreError Progress
  | [], p => .ok p
  | event :: events, p =>
    if event.eventSequence ≠ p.sequence + 1 then .ok { p with gap := some p.sequence }
    else
      match routeEvent commandIdOf now executionId eventTypes p.db event with
      | .error e => .error e
      | .ok db =>
        routeLoop commandIdOf now executionId eventTypes events
          { p with db := db, sequence := event.eventSequence, count := p.count + 1 }

/-- What an `advance` transaction has read under its row lock: the binding's last sequence, and the
inbox as its `SELECT` saw it. -/
structure AdvanceRead where
  lastSequence : ℕ
  seen : Table Uuid InboxRow

/-- The reads of `Store.advance`; `none` when the execution is not bound. -/
def advanceRead (db : Db) (executionId : Uuid) : Option AdvanceRead :=
  (db.bindings.get executionId).map fun b => ⟨b.lastSequence, db.inbox⟩

/-- The writes of `Store.advance` after its reads: the database, the number advanced and the gap. -/
def advanceWrite (commandIdOf : Uuid → Uuid) (now : Time) (executionId : Uuid)
    (eventTypes : List String) (limit : ℕ) (read : AdvanceRead) (db : Db) :
    Except StoreError (Db × ℕ × Option ℕ) :=
  let events := (advanceRows read.seen executionId read.lastSequence limit).map InboxRow.event
  match routeLoop commandIdOf now executionId eventTypes events
      ⟨db, read.lastSequence, 0, none⟩ with
  | .error e => .error e
  | .ok p =>
    .ok ({ p.db with bindings := p.db.bindings.modifyAt executionId fun b =>
            { b with lastSequence := p.sequence, nextScanAt := now, lastError := none } },
      p.count, p.gap)

/-- `Store.advance`, when nothing commits between its reads and its writes. -/
def advance (commandIdOf : Uuid → Uuid) (now : Time) (executionId : Uuid)
    (eventTypes : List String) (limit : ℕ) (db : Db) : Except StoreError (Db × ℕ × Option ℕ) :=
  match advanceRead db executionId with
  | none => .ok (db, 0, none)
  | some read => advanceWrite commandIdOf now executionId eventTypes limit read db

/-! ## Publication -/

/-- The `NOT EXISTS` of `Store.claim_outbox`: every earlier command of the execution is settled. -/
def Db.earlierSettled (db : Db) (c : CommandRow) : Bool :=
  db.commands.entries.all fun e =>
    ¬ (e.2.executionId = c.executionId ∧ e.2.sequence < c.sequence) ∨ e.2.state.settled

/-- The `WHERE` of `Store.claim_outbox`. -/
def Db.claimable (db : Db) (now : Time) (commandId : Uuid) (o : OutboxRow) : Bool :=
  match db.commands.get commandId with
  | none => false
  | some c =>
    c.state = .ready ∧
    (o.state = .pending ∨ (o.state = .claimed ∧ ∃ until_ ∈ o.claimUntil, until_ < now)) ∧
    db.earlierSettled c

/-- The `picked` rows of `Store.claim_outbox`: oldest first, without those locked by another
transaction (`SKIP LOCKED`), at most `limit`. -/
def claimPicked (db : Db) (now : Time) (locked : List Uuid) (limit : ℕ) : List Uuid :=
  (((db.outbox.entries.filter fun e => db.claimable now e.1 e.2 ∧ e.1 ∉ locked).insertionSort
    fun a b => a.2.createdAt < b.2.createdAt ∨ (a.2.createdAt = b.2.createdAt ∧ a.1 ≤ b.1)).map
      Prod.fst).take limit

/-- `Store.claim_outbox`: the database, and the claimed rows with their generations. -/
def claimOutbox (db : Db) (now : Time) (locked : List Uuid) (limit leaseSeconds : ℕ)
    (token : Uuid) : Db × List (Uuid × ℕ) :=
  let picked := claimPicked db now locked limit
  ({ db with outbox := db.outbox.modify fun k o =>
      if k ∈ picked then
        { o with
          state := .claimed, claimToken := some token, claimUntil := some (now + leaseSeconds) }
      else o },
    db.outbox.entries.filterMap fun e => if e.1 ∈ picked then some (e.1, e.2.generation) else none)

/-- `Store.finish_publications`. -/
def finishPublications (db : Db) (token : Uuid) (commandIds : List Uuid) (sent : Bool) : Db :=
  { db with outbox := db.outbox.modify fun k o =>
      if o.claimToken = some token ∧ k ∈ commandIds then
        { o with state := if sent then .sent else .pending, claimToken := none, claimUntil := none }
      else o }

/-! ## Commands -/

/-- `Store.command`: the command joined with its event and its binding. -/
def command (db : Db) (commandId : Uuid) : Option CommandView :=
  (db.commands.get commandId).bind fun c =>
    (db.inbox.get c.eventId).bind fun i =>
      (db.bindings.get c.executionId).map fun b => ⟨c, i.event, b.sessionId, b.taskId⟩

/-- `Store.set_state`. -/
def setState (db : Db) (commandId : Uuid) (state : CommandState) (error : Option String)
    (failedAttempt : Bool) : Db :=
  { db with
    commands := db.commands.modifyAt commandId fun c =>
      { c with
        state := state
        lastError := clipError error
        failureAttempts := c.failureAttempts + if failedAttempt then 1 else 0 }
    outbox :=
      if state = .done ∨ state = .ignored ∨ state = .failed then
        db.outbox.modifyAt commandId fun o =>
          { o with state := .sent, claimToken := none, claimUntil := none }
      else db.outbox }

/-- `str.isspace()` of one character. -/
def isSpace (c : Char) : Bool :=
  let n := c.toNat
  (9 ≤ n ∧ n ≤ 13) ∨ (28 ≤ n ∧ n ≤ 32) ∨ n = 0x85 ∨ n = 0xA0 ∨ n = 0x1680 ∨
    (0x2000 ≤ n ∧ n ≤ 0x200A) ∨ n = 0x2028 ∨ n = 0x2029 ∨ n = 0x202F ∨ n = 0x205F ∨ n = 0x3000

/-- Whether `str.strip()` leaves nothing of a text. -/
def blank (s : String) : Bool := s.toList.all isSpace

/-- `Store.resolve_failed`. -/
def resolveFailed (db : Db) (commandId : Uuid) (retry : Bool) (actor reason : String) :
    Except StoreError Db :=
  if blank actor ∨ blank reason then .error (.valueError "actor and reason are required")
  else
    match db.commands.get commandId with
    | none => .error (.valueError "Command is not FAILED")
    | some c =>
      if c.state = .failed then
        .ok { db with
          commands := db.commands.modifyAt commandId fun c =>
            { c with
              state := if retry then .ready else .ignored
              -- In a new generation the messages of the old one are closed.
              generation := c.generation + 1
              failureAttempts := 0
              lastError := none }
          outbox :=
            if retry then
              db.outbox.modifyAt commandId fun o =>
                { o with
                  generation := c.generation + 1
                  state := .pending
                  claimToken := none
                  claimUntil := none }
            else db.outbox
          audit := db.audit ++ [⟨commandId, if retry then .retry else .skip, reason, actor⟩] }
      else .error (.valueError "Command is not FAILED")

end ExAgent.Worker
