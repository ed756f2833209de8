import ExAgent.Lib.Transition
import ExAgent.Transport.DeadLetters

/-!
# Replay and discard of dead letters

`DeadLetterManager.replay` and `discard` of `ex_agent/transport/dlq.py`, called by any number of
operators, as a system: a call looks for a marker, reads the entry, and runs its script, each as one
step; what other clients append, and the expiry of markers, comes in between. The scripts run as one
step, as the server runs them. The server's streams, the reading of ID texts and the conversions of
Lua are those the scripts use; a stream stays under its key, so that its last ID only grows.

The digest of a marker's key is that of the standard library. The IDs that the server gives out, the
order in which Lua walks a table and the clock are choices of the steps.
-/

namespace ExAgent.Transport.DeadLetterManager

open Lib Lib.JsonText Worker.RedisStreamConsumer

/-! ## The server -/

/-- The fields of an entry. -/
abbrev Fields := List (PyText × PyText)

/-- A stream: its entries, and the greatest ID that it gave out. -/
structure Log where
  entries : List (StreamId × Fields)
  lastId : StreamId
  sorted : (entries.map Prod.fst).Pairwise (· < ·)
  bounded : ∀ e ∈ entries, e.1 ≤ lastId
  fits : ∀ e ∈ entries, Fits e.1

/-- The stream of a key that is not there. -/
def Log.empty : Log := ⟨[], toLex (0, 0), List.Pairwise.nil, nofun, nofun⟩

/-- An entry with a new ID. -/
def Log.push (s : Log) (id : StreamId) (fields : Fields) (h : s.lastId < id ∧ Fits id) : Log where
  entries := s.entries ++ [(id, fields)]
  lastId := id
  sorted := by
    rw [List.map_append, List.pairwise_append]
    refine ⟨s.sorted, List.pairwise_singleton _ _, fun a ha b hb => ?_⟩
    obtain ⟨e, he, rfl⟩ := List.mem_map.mp ha
    obtain rfl := List.mem_singleton.mp hb
    exact (s.bounded e he).trans_lt h.1
  bounded := by
    intro e he
    rcases List.mem_append.mp he with he | he
    · exact (s.bounded e he).trans h.1.le
    · rw [List.mem_singleton.mp he]
  fits := by
    intro e he
    rcases List.mem_append.mp he with he | he
    · exact s.fits e he
    · rw [List.mem_singleton.mp he]
      exact h.2

/-- The stream without an entry. -/
def Log.remove (s : Log) (id : StreamId) : Log where
  entries := s.entries.filter fun e => e.1 ≠ id
  lastId := s.lastId
  sorted := s.sorted.sublist (List.filter_sublist.map _)
  bounded := fun e he => s.bounded e (List.mem_of_mem_filter he)
  fits := fun e he => s.fits e (List.mem_of_mem_filter he)

/-- The number of a text of digits, if it has 64 bits. -/
def parsePart (digits : List Char) : Option ℕ :=
  if digits ≠ [] ∧ digits.all Char.isDigit ∧ DecimalText.value digits < 2 ^ 64 then
    some (DecimalText.value digits)
  else none

/-- The ID of a text, where a missing sequence number is filled in. -/
def parseId (missing : ℕ) (text : List Char) : Option StreamId :=
  match text.span Char.isDigit with
  | (ms, []) => (parsePart ms).map fun ms => toLex (ms, missing)
  | (ms, '-' :: seq) => (parsePart ms).bind fun ms => (parsePart seq).map fun seq => toLex (ms, seq)
  | _ => none

/-- The greatest part of an ID. -/
def maxPart : ℕ := 2 ^ 64 - 1

/-- The least and the greatest ID of a range from a text to the same text. A range that leaves its
ends out is empty. -/
def rangeOf (text : List Char) : Option (StreamId × StreamId) :=
  match text with
  | ['-'] => some (toLex (0, 0), toLex (0, 0))
  | ['+'] => some (toLex (maxPart, maxPart), toLex (maxPart, maxPart))
  | '(' :: text => (parseId 0 text).map fun _ => (toLex (0, 1), toLex (0, 0))
  | text => (parseId 0 text).bind fun low => (parseId maxPart text).map fun high => (low, high)

/-- The entries that a text stands for: `XRANGE key text text`. -/
def Log.xrange (s : Log) (text : List Char) : Option (List (StreamId × Fields)) :=
  (rangeOf text).map fun range => s.entries.filter fun e => range.1 ≤ e.1 ∧ e.1 ≤ range.2

/-- The keys of the server: those of streams, and those of markers. -/
structure Redis where
  streams : PyText → Log
  markers : PyText → Option PyText

/-- `XADD key *`, with the ID that the server gives out; `none` where the server would not. -/
def Redis.xadd (R : Redis) (key : PyText) (id : StreamId) (fields : Fields) : Option Redis :=
  if h : (R.streams key).lastId < id ∧ Fits id then
    some { R with streams := Function.update R.streams key ((R.streams key).push id fields h) }
  else none

/-- `XDEL key id`. -/
def Redis.xdel (R : Redis) (key : PyText) (id : StreamId) : Redis :=
  { R with streams := Function.update R.streams key ((R.streams key).remove id) }

/-- `SET key marker EX ttl`; when the marker expires is up to the steps. -/
def Redis.set (R : Redis) (key : PyText) (marker : PyText) : Redis :=
  { R with markers := Function.update R.markers key (some marker) }

/-- The conversions of Lua: `cjson`, and how many pairs `unpack` puts on the stack. -/
structure Lua where
  decode : PyText → Option Fields
  encode : Fields → PyText
  unpackLimit : ℕ
  limit : 1000 ≤ unpackLimit
  loads_encode : ∀ members, loads (encode members) = some (.dict (collect members))

/-! ## The scripts -/

/-- `DeadLetterAction`. -/
inductive DeadLetterAction
  | replayed
  | discarded
deriving DecidableEq

/-- The text of an action. -/
def DeadLetterAction.text : DeadLetterAction → PyText
  | .replayed => key "REPLAYED"
  | .discarded => key "DISCARDED"

/-- The keys and the prefix of a `DeadLetterManager`. -/
structure Manager where
  dlqStream : PyText
  auditStream : PyText
  markerPrefix : PyText

/-- `_marker_key`. -/
def Manager.markerKey (M : Manager) (entryId : List Char) : PyText :=
  M.markerPrefix ++ 58 ::
    (Sha256.hexdigest (Utf8.encode (M.dlqStream ++ 0 :: entryId.map Char.toNat))).map Char.toNat

/-- The arguments of a script. -/
structure Arguments where
  entryId : List Char
  sourceStream : PyText
  fields : PyText
  failureId : PyText
  sourceMessageId : PyText
  actor : PyText
  reason : PyText

/-- What the server and the clock choose in a step: the IDs of new entries, the order of a table's
pairs, and the time. -/
structure Draw where
  targetId : StreamId
  auditId : StreamId
  pairs : Fields
  actedAt : PyText

/-- The reply to `EVAL`. -/
inductive Reply
  | status (code : ℤ) (text : PyText)
  | error
deriving DecidableEq

/-- The reply of a script that was applied. -/
def Reply.applied : Reply → Bool
  | .status code _ => code = 1
  | .error => false

/-- The text of a target. -/
def targetText (target : Option StreamId) : PyText :=
  match target with
  | some id => id.text.map Char.toNat
  | none => []

/-- The audit record. -/
def auditFields (M : Manager) (action : DeadLetterAction) (a : Arguments) (target : Option StreamId)
    (actedAt : PyText) : Fields :=
  [(key "schema_version", key "1"), (key "action", action.text), (key "dlq_stream", M.dlqStream),
    (key "dlq_entry_id", a.entryId.map Char.toNat), (key "failure_id", a.failureId),
    (key "source_stream", a.sourceStream), (key "source_message_id", a.sourceMessageId),
    (key "target_message_id", targetText target), (key "actor", a.actor), (key "reason", a.reason),
    (key "acted_at", actedAt)]

/-- The marker of an action. -/
def markerMembers (action : DeadLetterAction) (target : Option StreamId) : Fields :=
  match target with
  | some id => [(key "action", action.text), (key "target_message_id", targetText (some id))]
  | none => [(key "action", action.text)]

/-- What a script does before the audit record: a replay appends the decoded fields to the source
stream, in the order in which `pairs` walks them. An error of `cjson`, of `unpack` or of `XADD`
without fields ends the script. -/
def publish (L : Lua) (action : DeadLetterAction) (a : Arguments) (d : Draw) (R : Redis) :
    Option (Except Unit (Redis × Option StreamId)) :=
  match action with
  | .discarded => some (.ok (R, none))
  | .replayed =>
    match L.decode a.fields with
    | none => some (.error ())
    | some fields =>
      if L.unpackLimit < fields.length ∨ fields = [] then some (.error ())
      else if d.pairs.Perm fields then
        (R.xadd a.sourceStream d.targetId d.pairs).map fun R => .ok (R, some d.targetId)
      else none

/-- The two scripts, which differ in what they publish and in the action that they record. -/
def script (action : DeadLetterAction) (L : Lua) (M : Manager) (a : Arguments)
    (d : Draw) (R : Redis) :
    Option (Redis × Reply) :=
  match R.markers (M.markerKey a.entryId) with
  -- The entry was acted on before.
  | some prior => some (R, .status 0 prior)
  | none =>
    match (R.streams M.dlqStream).xrange a.entryId with
    | none => some (R, .error)
    -- The entry is gone without a marker.
    | some [] => some (R, .status (-1) (key "missing"))
    | some (_ :: _) =>
      match publish L action a d R with
      | none => none
      | some (.error _) => some (R, .error)
      | some (.ok (R, target)) =>
        match R.xadd M.auditStream d.auditId (auditFields M action a target d.actedAt) with
        | none => none
        | some R =>
          match parseId 0 a.entryId with
          | none => some (R, .error)
          | some id =>
            -- The entry goes, and its marker comes, at the end.
            let marker := L.encode (markerMembers action target)
            some ((R.xdel M.dlqStream id).set (M.markerKey a.entryId) marker, .status 1 marker)

/-- `_REPLAY_SCRIPT`. -/
def replayScript : Lua → Manager → Arguments → Draw → Redis → Option (Redis × Reply) :=
  script .replayed

/-- `_DISCARD_SCRIPT`. -/
def discardScript : Lua → Manager → Arguments → Draw → Redis → Option (Redis × Reply) :=
  script .discarded

/-! ## The calls -/

/-- What a call raises. -/
inductive ActionError
  | valueError
  | lookupError
  | formatError
  | runtimeError
  | responseError
deriving DecidableEq

/-- How a call ends: a `DeadLetterActionResult` for its entry, or an exception. -/
inductive Outcome
  | result (action : DeadLetterAction) (applied : Bool) (target : Option PyText)
  | raised (error : ActionError)
deriving DecidableEq

/-- Python takes the value for true. -/
def truthy : PyJson .value → Bool
  | .none => false
  | .bool b => b
  | .number n => n.value ≠ 0
  | .text t => t ≠ []
  | .list .nil => false
  | .dict .empty => false
  | _ => true

/-- `_marker_result`: the action and the target of a marker. -/
def markerResult (spell : PyJson .value → PyText) (marker : PyText) :
    Option (DeadLetterAction × Option PyText) :=
  match loads marker with
  | some (.dict payload) =>
    let target := match lookup (key "target_message_id") payload with
      | some v => if truthy v then some (str spell v) else none
      | none => none
    match lookup (key "action") payload with
    | some (.text t) =>
      if t = key "REPLAYED" then some (.replayed, target)
      else if t = key "DISCARDED" then some (.discarded, target)
      else none
    | _ => none
  | _ => none

/-- The outcome of a marker. -/
def markerOutcome (spell : PyJson .value → PyText) (applied : Bool) (marker : PyText) : Outcome :=
  match markerResult spell marker with
  | some (action, target) => .result action applied target
  | none => .raised .runtimeError

/-- `_script_result`. -/
def scriptResult (spell : PyJson .value → PyText) : Reply → Outcome
  | .error => .raised .responseError
  | .status code text =>
    if code = -1 then .raised .lookupError else markerOutcome spell (decide (code = 1)) text

/-- `str.isspace`. -/
def isSpaceCode (c : ℕ) : Bool :=
  9 ≤ c ∧ c ≤ 13 ∨ 28 ≤ c ∧ c ≤ 32 ∨ c = 0x85 ∨ c = 0xA0 ∨ c = 0x1680 ∨ 0x2000 ≤ c ∧ c ≤ 0x200A ∨
    c = 0x2028 ∨ c = 0x2029 ∨ c = 0x202F ∨ c = 0x205F ∨ c = 0x3000

/-- `not text.strip()`. -/
def blank (text : List Char) : Bool := text.all fun c => isSpaceCode c.toNat

/-- Where a call stands. -/
inductive Phase
  | start
  /-- There was no marker. -/
  | unmarked
  | fetched (entry : DeadLetterEntry)
  | done (outcome : Outcome)

/-- A call of `replay` or `discard`. -/
structure Call where
  action : DeadLetterAction
  entryId : List Char
  actor : List Char
  reason : List Char
  phase : Phase := .start

/-- The server, the calls so far, and the audit records that the scripts wrote: the texts of their
entries and their IDs. -/
structure State where
  redis : Redis
  calls : List Call := []
  audits : List (List Char × StreamId) := []

/-- The arguments that a call gives its script. -/
def Call.arguments (c : Call) (entry : DeadLetterEntry) : Arguments :=
  ⟨c.entryId, entry.sourceStream, dumpsTexts true [44, 32] [58, 32] entry.fields, entry.failureId,
    entry.sourceMessageId, c.actor.map Char.toNat, c.reason.map Char.toNat⟩

/-- The next phase of a call before its script. -/
def Call.look (spell : PyJson .value → PyText) (M : Manager) (R : Redis) (c : Call) : Phase :=
  match c.phase with
  | .start =>
    if blank c.actor ∨ blank c.reason then .done (.raised .valueError)
    else
      match R.markers (M.markerKey c.entryId) with
      | some marker => .done (markerOutcome spell false marker)
      | none => .unmarked
  | .unmarked =>
    match (R.streams M.dlqStream).xrange c.entryId with
    | none => .done (.raised .responseError)
    | some [] => .done (.raised .lookupError)
    | some (row :: _) =>
      match DeadLetterEntry.fromRedis spell row.1.text row.2 with
      | none => .done (.raised .formatError)
      | some entry => .fetched entry
  | phase => phase

/-- The steps: a call is made; a call goes on; a client appends an entry to a stream; a marker
expires. -/
inductive Action
  | call (action : DeadLetterAction) (entryId actor reason : List Char)
  | step (i : ℕ) (d : Draw)
  | append (key : PyText) (id : StreamId) (fields : Fields)
  | expire (key : PyText)

/-- A call goes on. -/
def State.advance (spell : PyJson .value → PyText) (L : Lua) (M : Manager) (s : State) (i : ℕ)
    (d : Draw) : Option State :=
  match s.calls[i]? with
  | none => none
  | some c =>
    match c.phase with
    | .done _ => none
    | .fetched entry =>
      (script c.action L M (c.arguments entry) d s.redis).map fun (R, reply) =>
        { redis := R
          calls := s.calls.set i { c with phase := .done (scriptResult spell reply) }
          audits := if reply.applied then s.audits ++ [(c.entryId, d.auditId)] else s.audits }
    | _ => some { s with calls := s.calls.set i { c with phase := c.look spell M s.redis } }

/-- One step. -/
def step (spell : PyJson .value → PyText) (L : Lua) (M : Manager) (s : State) :
    Action → Option State
  | .call action entryId actor reason =>
    some { s with calls := s.calls ++ [{ action, entryId, actor, reason }] }
  | .step i d => s.advance spell L M i d
  | .append key id fields => (s.redis.xadd key id fields).map fun R => { s with redis := R }
  | .expire key =>
    some { s with redis := { s.redis with markers := Function.update s.redis.markers key none } }

end ExAgent.Transport.DeadLetterManager
