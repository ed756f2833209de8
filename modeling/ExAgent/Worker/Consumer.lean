import ExAgent.Lib.StreamGroups
import ExAgent.Lib.Transition
import ExAgent.Values

/-!
# The stream consumer

`RedisStreamConsumer` of `worker/consumer.py` with the claim script of `worker/redis_streams.py`:
any number of slots of any number of processes around one stream, one group and one dead-letter
stream. A step is one command on the server, or the end of an await without one. What the
environment decides is in the action: the clock, what a handler does, which commands fail, before or
after they took effect, what expires, which bodies are deleted, and where a task is cancelled.

A slot claims stale entries, runs `process_message` for each, reads one new entry, runs it as well,
and begins again. A run of `process_message` is a process of its own: a cancelled slot can be gone
while its run still ends. The heartbeat of a run goes on beside its handler; when the lease is lost,
the handler is cancelled, which is one of the points where any task can be cancelled.

Server scripts and `MULTI` pipelines are atomic. `Settings` holds what the code reads of
`RedisStreamConsumerConfig`; consumers are not garbage collected, as the worker configures it.
-/

namespace ExAgent.Worker.RedisStreamConsumer

open Lib

/-- `RedisStreamMode`. -/
inductive StreamMode
  | compat
  | native
deriving DecidableEq

/-- `RedisStreamConsumerConfig`, with the checks of `__post_init__` on what is kept of it. -/
structure Settings where
  stream : String
  group : String
  claimIdleMilliseconds : ℕ
  claimBatchSize : ℕ
  deadLetterStream : Option String
  maxRetryAttempts : ℕ
  retryKeyPrefix : String
  redisStreamMode : StreamMode
  claimIdle_pos : 1 ≤ claimIdleMilliseconds
  claimBatchSize_range : 1 ≤ claimBatchSize ∧ claimBatchSize ≤ 500
  maxRetryAttempts_pos : 1 ≤ maxRetryAttempts

/-- A deployment: the settings, the hexadecimal SHA-256 of a text, and whether the server drops
deleted entries from the pending list when it claims. -/
structure Deployment where
  settings : Settings
  sha256 : String → String
  dropsDeleted : Bool

/-- `AckDecision`. -/
inductive AckDecision
  | ack
  | defer
  | retry
  | deadLetter
deriving DecidableEq

/-- `HandlerResult`. -/
structure HandlerResult where
  decision : AckDecision
  outcome : String
  reason : Option String
  errorType : Option String
deriving DecidableEq

/-- `StreamMessage`; the fields are what the client reads from the entry's body. -/
structure StreamMessage (β : Type) where
  messageId : StreamId
  fields : β
  reclaimed : Bool

/-- An entry of the dead-letter stream; its `fields` are stored as sorted JSON. -/
structure DeadLetter (β : Type) where
  schemaVersion : String
  failureId : String
  deadLetteredAt : Time
  sourceStream : String
  sourceGroup : String
  sourceMessageId : String
  consumer : String
  errorType : String
  reason : String
  retryAttempts : ℕ
  reclaimed : Bool
  fields : β

variable {β : Type}

/-- The text of a message ID. -/
def idText (id : StreamId) : String := String.ofList id.text

/-- The identity that both digests are taken of: stream, group and message ID, joined by a null
character. -/
def identity (D : Deployment) (id : StreamId) : String :=
  let null := String.singleton (Char.ofNat 0)
  D.settings.stream ++ null ++ D.settings.group ++ null ++ idText id

/-- `_retry_state_key`. -/
def retryStateKey (D : Deployment) (id : StreamId) : String :=
  D.settings.retryKeyPrefix ++ ":" ++ D.sha256 (identity D id)

/-- `_failure_id`. -/
def failureId (D : Deployment) (id : StreamId) : String := D.sha256 (identity D id)

/-- `value or default`, for a text that may be `None`. -/
def orDefault (value : Option String) (default : String) : String :=
  match value with
  | some text => if text = "" then default else text
  | none => default

/-! ## The server -/

/-- The server: the stream and its group, the retry counters, the locks with the tokens of their
holders, and the dead-letter stream. -/
structure Server (β : Type) where
  group : GroupView β
  retries : String → Option ℕ
  locks : String → Option String
  deadLetters : List (DeadLetter β)

/-- One entry of the page of `_CLAIM_PAGE_SCRIPT`: it is claimed, or acknowledged when its body is
missing. -/
def claimEntry (D : Deployment) (consumer : String) (now : Time)
    (page : GroupView β × List (StreamId × β)) (entry : StreamId × Holding) :
    GroupView β × List (StreamId × β) :=
  if now < entry.2.since + D.settings.claimIdleMilliseconds then page
  else
    match page.1.xclaim D.dropsDeleted consumer now D.settings.claimIdleMilliseconds entry.1 with
    | (g, .entry b) => (g, page.2 ++ [(entry.1, b)])
    | (g, _) => (if (g.body entry.1).isNone then g.xack entry.1 else g, page.2)

/-- `next_stream_id`: the ID after an ID, `none` at the end of the ID space. -/
def nextStreamId (id : StreamId) : Option StreamId :=
  let maxPart := 2 ^ 64 - 1
  if id.sequence < maxPart then some (toLex (id.milliseconds, id.sequence + 1))
  else if id.milliseconds < maxPart then some (toLex (id.milliseconds + 1, 0))
  else none

/-- `claim_pending_page`: the group, the next cursor and the claimed entries. -/
def claimPendingPage (D : Deployment) (consumer : String) (now : Time) (cursor : StreamId)
    (g : GroupView β) : GroupView β × StreamId × List (StreamId × β) :=
  let pending := g.xpending cursor D.settings.claimBatchSize
  let (g', messages) := pending.foldl (claimEntry D consumer now) (g, [])
  let last := (pending.getLast?.map Prod.fst).getD (toLex (0, 0))
  let next := if pending.length = D.settings.claimBatchSize then nextStreamId last else none
  (g', next.getD (toLex (0, 0)), messages)

/-- `_claim_stale`. -/
def claimStale (D : Deployment) (consumer : String) (now : Time) (cursor : StreamId)
    (g : GroupView β) : GroupView β × StreamId × List (StreamId × β) :=
  match D.settings.redisStreamMode with
  | .native =>
    let (g', messages, next) := g.xautoclaim D.dropsDeleted consumer now
      D.settings.claimIdleMilliseconds cursor D.settings.claimBatchSize
    (g', next.getD (toLex (0, 0)), messages)
  | .compat => claimPendingPage D consumer now cursor g

/-! ## One message -/

/-- `_LockLease`. -/
structure LockLease where
  key : String
  value : String

/-- Where a run of `process_message` stands: the handler's call, or the command to be sent next. -/
inductive Phase
  /-- `handler.lock_key`. -/
  | locking
  /-- `_acquire_lock`. -/
  | acquiring (key : String)
  /-- `handler.handle`. -/
  | handling
  /-- `_ack`. -/
  | acking
  /-- The retry script of `_retry_or_dead_letter`. -/
  | counting (result : HandlerResult)
  /-- `_dead_letter`. -/
  | burying (reason : String) (retryAttempts : ℕ) (errorType : String)
  /-- The outer `finally`: `_release_lock`. -/
  | leaving
  | returned
deriving DecidableEq

/-- A run of `process_message`. -/
structure Run (β : Type) where
  consumer : String
  message : StreamMessage β
  lease : Option LockLease
  /-- Whether the heartbeat still renews. -/
  heartbeat : Bool
  phase : Phase

/-- The run stands somewhere else. -/
def Run.goto (r : Run β) (phase : Phase) : Run β := { r with phase := phase }

/-- `_run_with_lease`: the handler is called beside a heartbeat. -/
def Run.handle (r : Run β) (lease : Option LockLease) : Run β :=
  { r with lease := lease, heartbeat := true, phase := .handling }

/-- What `handler.lock_key` does. -/
inductive LockKey
  | none
  | key (key : String)
  /-- It raises `PermanentMessageError`. -/
  | permanent (message : String)
  | raised

/-- What `handler.handle` does; a cancelled handler does nothing of this, or what it likes. -/
inductive Handled
  | returned (result : HandlerResult)
  /-- It raises `PermanentMessageError`. -/
  | permanent (message : String)
  /-- It raises another `Exception`. -/
  | raised (typeName message : String)

/-- An event of the log. -/
inductive Record
  /-- A handler run for the message returned a decision. -/
  | decided (messageId : StreamId) (decision : AckDecision)
  /-- A retry of the message was counted. -/
  | counted (messageId : StreamId)
deriving DecidableEq

/-- How a run goes on. -/
inductive Go
  | lockKey (k : LockKey)
  | handled (h : Handled)
  /-- The pending command is executed, and its reply arrives. -/
  | call (now : Time) (token : String)
  /-- The pending command raises; it may have been executed. -/
  | fault (executed : Bool) (now : Time) (token : String)
  /-- The heartbeat renews the lease; it raises all the same when `lost`. -/
  | renew (now : Time) (lost : Bool)
  /-- The task is cancelled where it awaits. -/
  | cancel

/-- The pipeline of `_ack`. -/
def ack (D : Deployment) (m : StreamMessage β) (s : Server β) : Server β :=
  { s with
    group := s.group.xack m.messageId
    retries := if m.reclaimed then Function.update s.retries (retryStateKey D m.messageId) none
      else s.retries }

/-- The pipeline of `_dead_letter`. -/
def deadLetter (D : Deployment) (consumer : String) (m : StreamMessage β) (now : Time)
    (reason : String) (retryAttempts : ℕ) (errorType : String) (s : Server β) : Server β :=
  { s with
    group := s.group.xack m.messageId
    retries := Function.update s.retries (retryStateKey D m.messageId) none
    deadLetters := s.deadLetters ++ [{
      schemaVersion := "1"
      failureId := failureId D m.messageId
      deadLetteredAt := now
      sourceStream := D.settings.stream
      sourceGroup := D.settings.group
      sourceMessageId := idText m.messageId
      consumer := consumer
      errorType := errorType
      reason := reason
      retryAttempts := retryAttempts
      reclaimed := m.reclaimed
      fields := m.fields }] }

/-- `attempts`, as the retry script returns it. -/
def attempts (D : Deployment) (m : StreamMessage β) (s : Server β) : ℕ :=
  (s.retries (retryStateKey D m.messageId)).getD 0 + 1

/-- `_INCREMENT_RETRY_SCRIPT`. -/
def countRetry (D : Deployment) (m : StreamMessage β) (s : Server β) : Server β :=
  let retries := Function.update s.retries (retryStateKey D m.messageId) (some (attempts D m s))
  { s with retries := retries }

/-- What `_handle_and_finalize` does next, once `handle` has ended. -/
def afterHandle : Handled → Phase
  | .permanent message => .burying message 0 "PermanentMessageError"
  | .raised typeName message =>
    .counting ⟨.retry, "failed", some (typeName ++ ": " ++ message), some typeName⟩
  | .returned result =>
    match result.decision with
    | .ack => .acking
    | .retry => .counting result
    | .deadLetter =>
      .burying (orDefault result.reason "handler rejected message") 0
        (orDefault result.errorType "handler_decision")
    | .defer => .leaving

/-- The command that a run has pending: the server afterwards, the run when the reply arrives, and
what is logged. -/
def command (D : Deployment) (s : Server β) (r : Run β) (now : Time) (token : String) :
    Option (Server β × Run β × List Record) :=
  match r.phase with
  | .acquiring key =>
    match s.locks key with
    -- Contention: another holder has the lock.
    | some _ => some (s, r.goto .returned, [])
    | none =>
      some ({ s with locks := Function.update s.locks key (some token) },
        r.handle (some ⟨key, token⟩), [])
  | .acking => some (ack D r.message s, r.goto .leaving, [])
  | .counting result =>
    let attempts := attempts D r.message s
    some (countRetry D r.message s,
      r.goto (if attempts < D.settings.maxRetryAttempts then .leaving
        else .burying (orDefault result.reason "handler retry limit exhausted") attempts
          (orDefault result.errorType "retry_exhausted")),
      [.counted r.message.messageId])
  | .burying reason retryAttempts errorType =>
    match D.settings.deadLetterStream with
    -- `RuntimeError("dead-letter stream is not configured")`
    | none => some (s, r.goto .leaving, [])
    | some _ =>
      some (deadLetter D r.consumer r.message now reason retryAttempts errorType s,
        r.goto .leaving, [])
  | .leaving =>
    match r.lease with
    | none => some (s, r.goto .returned, [])
    | some lease =>
      some ({ s with locks := if s.locks lease.key = some lease.value
          then Function.update s.locks lease.key none else s.locks }, r.goto .returned, [])
  | .locking | .handling | .returned => none

/-- Where an exception or a cancellation leaves a run: the `finally` of `process_message` is still
to come when the handler was running, and its own command is the last. -/
def Phase.broken : Phase → Phase
  | .leaving | .returned | .locking | .acquiring _ => .returned
  | .handling | .acking | .counting _ | .burying .. => .leaving

/-- Whether the heartbeat runs. -/
def Phase.leased : Phase → Bool
  | .handling | .acking | .counting _ | .burying .. => true
  | .locking | .acquiring _ | .leaving | .returned => false

/-- One step of a run. -/
def Run.step (D : Deployment) (s : Server β) (r : Run β) :
    Go → Option (Server β × Run β × List Record)
  | .lockKey k =>
    if r.phase = .locking then
      some (s, match k with
        | .none => r.handle none
        | .key key => r.goto (.acquiring key)
        | .permanent message => r.goto (.burying message 0 "PermanentMessageError")
        | .raised => r.goto .returned, [])
    else none
  | .handled h =>
    if r.phase = .handling then
      some (s, r.goto (afterHandle h), match h with
        | .returned result => [.decided r.message.messageId result.decision]
        | .permanent _ | .raised .. => [])
    else none
  | .call now token => command D s r now token
  | .fault executed now token =>
    (command D s r now token).map fun (s', _, l) =>
      if executed then (s', r.goto r.phase.broken, l) else (s, r.goto r.phase.broken, [])
  | .renew now lost =>
    if r.heartbeat ∧ r.phase.leased then
      -- The heartbeat renews the lease and claims the message for its own consumer.
      let renewed : Bool := match r.lease with
        | some lease => s.locks lease.key = some lease.value
        | none => true
      let (g, claimed) := s.group.xclaim D.dropsDeleted r.consumer now 0 r.message.messageId
      let held : Bool := match claimed with
        | .nothing => false
        | .bodiless | .entry _ => true
      some ({ s with group := g }, { r with heartbeat := renewed && held && ! lost }, [])
    else none
  | .cancel => if r.phase = .returned then none else some (s, r.goto r.phase.broken, [])

/-! ## The slots -/

/-- Where `_consume_slot` stands. -/
inductive SlotPhase (β : Type)
  | claiming
  /-- The messages that are left, the run of the current one, and whether a read follows. -/
  | processing (messages : List (StreamMessage β)) (run : Option ℕ) (thenRead : Bool)
  | reading
  | stopped

/-- A slot of a process. -/
structure Slot (β : Type) where
  consumer : String
  claimCursor : StreamId
  phase : SlotPhase β

/-- How a slot goes on. -/
inductive SlotGo
  | next (now : Time)
  /-- The pending command raises; it may have been executed. -/
  | fault (executed : Bool) (now : Time)
  /-- It stops, is cancelled, or dies. -/
  | stop

/-- The whole system, with the entries ever published and the log. -/
structure System (β : Type) where
  server : Server β
  slots : List (Slot β)
  runs : List (Run β)
  published : Table StreamId β
  log : List Record

/-- A step of the system. -/
inductive Act (β : Type)
  /-- An entry is added to the stream. -/
  | publish (id : StreamId) (fields : β)
  /-- Entries are deleted from the stream. -/
  | evict (gone : List StreamId)
  | lockExpires (key : String)
  | retriesExpire (key : String)
  /-- A process opens a slot. -/
  | openSlot (consumer : String)
  | slot (i : ℕ) (g : SlotGo)
  | run (i : ℕ) (g : Go)

/-- The slot stands somewhere else. -/
def System.put (s : System β) (i : ℕ) (slot : Slot β) : System β :=
  { s with slots := s.slots.set i slot }

/-- The messages of a reply. -/
def messages (entries : List (StreamId × β)) (reclaimed : Bool) : List (StreamMessage β) :=
  entries.map fun e => ⟨e.1, e.2, reclaimed⟩

/-- `_consume_slot` from one await to the next. -/
def System.next (D : Deployment) (s : System β) (i : ℕ) (slot : Slot β) (now : Time) :
    Option (System β) :=
  match slot.phase with
  | .claiming =>
    -- Stale messages come before new ones.
    let (g, cursor, claimed) := claimStale D slot.consumer now slot.claimCursor s.server.group
    some ({ s with server := { s.server with group := g } }.put i
      { slot with claimCursor := cursor, phase := .processing (messages claimed true) none true })
  | .processing [] none thenRead =>
    some (s.put i { slot with phase := if thenRead then .reading else .claiming })
  | .processing (m :: ms) none thenRead =>
    let run : Run β := ⟨slot.consumer, m, none, false, .locking⟩
    some ({ s with runs := s.runs ++ [run] }.put i
      { slot with phase := .processing ms (some s.runs.length) thenRead })
  | .processing ms (some r) thenRead =>
    match s.runs[r]? with
    | none => none
    | some run =>
      -- The slot waits for its run to return.
      if run.phase = .returned then
        some (s.put i { slot with phase := .processing ms none thenRead })
      else none
  | .reading =>
    -- One new message at a time.
    let (g, new) := s.server.group.xreadgroup slot.consumer now 1
    some ({ s with server := { s.server with group := g } }.put i
      { slot with phase := .processing (messages new false) none false })
  | .stopped => none

/-- A slot whose command raises begins again; what it has claimed or read stays pending with it. -/
def System.fault (D : Deployment) (s : System β) (i : ℕ) (slot : Slot β) (executed : Bool)
    (now : Time) : Option (System β) :=
  let group := match slot.phase with
    | .claiming => (claimStale D slot.consumer now slot.claimCursor s.server.group).1
    | .reading => (s.server.group.xreadgroup slot.consumer now 1).1
    | .processing .. | .stopped => s.server.group
  match slot.phase with
  | .stopped => none
  | _ => some ({ s with server := { s.server with
      group :=
        if executed then group else s.server.group } }.put i { slot with phase := .claiming })

attribute [local instance] StreamId.lawfulBEq in

/-- One step of the system. -/
def step (D : Deployment) (s : System β) : Act β → Option (System β)
  | .publish id fields =>
    (s.server.group.xadd id fields).bind fun g =>
      (s.published.insert id fields).map fun published =>
        { s with server := { s.server with group := g }, published := published }
  | .evict gone =>
    some { s with server := { s.server with group := s.server.group.evict fun id => id ∈ gone } }
  | .lockExpires key =>
    some { s with server := { s.server with locks := Function.update s.server.locks key none } }
  | .retriesExpire key =>
    some { s with server := { s.server with retries := Function.update s.server.retries key none } }
  | .openSlot consumer =>
    let slot : Slot β := ⟨consumer, toLex (0, 0), .claiming⟩
    some { s with slots := s.slots ++ [slot] }
  | .slot i g =>
    match s.slots[i]? with
    | none => none
    | some slot =>
      match g with
      | .next now => s.next D i slot now
      | .fault executed now => s.fault D i slot executed now
      | .stop => some (s.put i { slot with phase := .stopped })
  | .run i g =>
    (s.runs[i]?).bind fun r => (r.step D s.server g).map fun (server, r', l) =>
      { s with server := server, runs := s.runs.set i r', log := s.log ++ l }

/-- A new group of an empty stream. -/
def System.initial : System β :=
  ⟨⟨⟨[], toLex (0, 0), toLex (0, 0), .empty⟩, fun _ => none, fun _ => none, []⟩, [], [], .empty, []⟩

/-- The consumers of a group as a transition system. -/
def consumers (D : Deployment) : Machine (System β) (Act β) :=
  ⟨fun s => s = .initial, step D⟩

end ExAgent.Worker.RedisStreamConsumer
