import ExAgent.Lib.Streams

/-!
# Trimming a stream

`trim` runs one script on the server: it takes the least of the retention ID, the ID of the oldest
of the newest entries to retain, every group's last delivered ID and every group's oldest pending
ID, and removes entries below it. The script compares the decimal texts of IDs, since its numbers
cannot hold them. `plan` asks the server the same questions one by one and compares integers.

In native mode everything below the boundary goes at once; in compat mode, the oldest 500 entries of
it. The model is the script, statement by statement, and the methods of `SafeStreamTrimmer`.
-/

namespace ExAgent.Transport

open Lib

/-- How the server removes entries. -/
inductive RedisStreamMode where
  | compat
  | native
deriving DecidableEq

/-! ## The script -/

/-- `decimal_less`. -/
def decimalLess (left right : List Char) : Bool :=
  let left := left.dropWhile fun c => c = '0'
  let right := right.dropWhile fun c => c = '0'
  let left := if left = [] then ['0'] else left
  let right := if right = [] then ['0'] else right
  if left.length ≠ right.length then left.length < right.length else left < right

/-- `id_less`; a text that is not an ID raises. -/
def idLess (left right : List Char) : Option Bool :=
  match StreamId.parts left, StreamId.parts right with
  | some (leftMs, leftSeq), some (rightMs, rightSeq) =>
    if leftMs = rightMs then some (decimalLess leftSeq rightSeq)
    else some (decimalLess leftMs rightMs)
  | _, _ => none

/-- `minimum`. -/
def minimum (left right : List Char) : Option (List Char) :=
  (idLess right left).map fun less => if less then right else left

/-- The text `0-0`. -/
def zeroId : List Char := ['0', '-', '0']

/-- The locals of the loop over the fields of a group. -/
structure GroupFields where
  name : Option String
  lastDelivered : List Char
  pendingCount : ℕ

/-- One round of the loop over the fields of a group. -/
def GroupFields.read (fields : GroupFields) : String × InfoValue → GroupFields
  | ("name", .name n) => { fields with name := some n }
  | ("last-delivered-id", .text t) => { fields with lastDelivered := t }
  | ("pending", .count n) => { fields with pendingCount := n }
  | _ => fields

section Script

variable {β : Type}

/-- One round of the loop over the groups. -/
def groupBoundary (s : EntryStream β) (boundary : List Char) (group : GroupInfo) :
    Option (List Char) :=
  let fields := group.foldl GroupFields.read ⟨none, zeroId, 0⟩
  (minimum boundary fields.lastDelivered).bind fun boundary =>
    match fields.name with
    | some name =>
      if fields.pendingCount > 0 then
        (s.xpending name).bind fun pending =>
          match pending.min with
          | some oldest => minimum boundary oldest
          | none => some boundary
      else some boundary
    | none => some boundary

/-- The loop of the bounded deletion: the rows below the boundary. -/
def rowsBelow (boundary : List Char) : List (List Char) → Option (List (List Char))
  | [] => some []
  | row :: rows =>
    (idLess row boundary).bind fun less =>
      (rowsBelow boundary rows).map fun ids => if less then row :: ids else ids

/-- The removal at the end of the script. -/
def remove (s : EntryStream β) (boundary : List Char) : RedisStreamMode → Option (EntryStream β × ℕ)
  | .native => (StreamId.parse boundary).map s.xtrimMinid
  | .compat =>
    (StreamId.parse boundary).bind fun upto =>
      -- The end of the range is inclusive; the boundary itself is never deleted.
      (rowsBelow boundary (s.xrange upto 500)).bind fun ids =>
        if ids.length > 0 then (ids.mapM StreamId.parse).map s.xdel else some (s, 0)

/-- What the script returns. -/
structure TrimReply where
  removed : ℕ
  boundary : List Char
  groups : ℕ
  length : ℕ
deriving DecidableEq

/-- The script after the check of the tail. -/
def removeBelow (s : EntryStream β) (mode : RedisStreamMode) (boundary : List Char) :
    Option (EntryStream β × TrimReply) :=
  let groups := s.xinfoGroups
  (groups.foldlM (groupBoundary s) boundary).bind fun boundary =>
    (remove s boundary mode).map fun (after, removed) =>
      (after, ⟨removed, boundary, groups.length, s.xlen⟩)

/-- `_SAFE_TRIM_SCRIPT`, on the value of the key: the retention boundary, the number of entries to
retain and the mode are its arguments. -/
def safeTrimScript (key : Option (EntryStream β)) (retention : List Char) (minimumEntries : ℕ)
    (mode : RedisStreamMode) : Option (Option (EntryStream β) × TrimReply) :=
  match key with
  | none => some (none, ⟨0, zeroId, 0, 0⟩)
  | some s =>
    let length := s.xlen
    let result :=
      if length ≤ minimumEntries then some (s, ⟨0, zeroId, 0, length⟩)
      else if minimumEntries > 0 then
        let tail := s.xrevrange minimumEntries
        if tail.length < minimumEntries then some (s, ⟨0, zeroId, 0, length⟩)
        else tail.getLast?.bind fun last => (minimum retention last).bind (removeBelow s mode)
      else removeBelow s mode retention
    result.map fun (after, reply) => (some after, reply)

end Script

/-! ## The trimmer -/

/-- `ConsumerGroupBoundary`. -/
structure ConsumerGroupBoundary where
  name : String
  lastDeliveredId : List Char
  pendingCount : ℕ
  oldestPendingId : Option (List Char)

/-- `StreamTrimPlan`, without the name of the stream. -/
structure StreamTrimPlan where
  streamExists : Bool
  streamLength : ℕ
  retentionBoundaryId : List Char
  tailBoundaryId : Option (List Char)
  groups : List ConsumerGroupBoundary
  trimBeforeId : Option (List Char)

/-- `can_trim`. -/
def StreamTrimPlan.canTrim (plan : StreamTrimPlan) : Bool :=
  plan.trimBeforeId ≠ none ∧ plan.trimBeforeId ≠ some zeroId

/-- `StreamTrimResult`, without the name of the stream. -/
structure StreamTrimResult where
  removedEntries : ℕ
  trimBeforeId : List Char
  inspectedGroups : ℕ
  streamLengthBefore : ℕ
deriving DecidableEq

/-- The settings of a `SafeStreamTrimmer`. -/
structure SafeStreamTrimmer where
  retentionSeconds : ℕ
  minimumRetainedEntries : ℕ
  redisStreamMode : RedisStreamMode

/-- `_stream_id_parts` of the IDs that Redis writes, where `int` reads digits and nothing else. -/
def streamIdParts (value : List Char) : Option (ℕ × ℕ) :=
  (StreamId.parts value).map fun (ms, seq) => (DecimalText.value ms, DecimalText.value seq)

/-- The order of Python's pairs. -/
def pairLess (a b : ℕ × ℕ) : Bool := a.1 < b.1 ∨ a.1 = b.1 ∧ a.2 < b.2

/-- `min(boundaries, key=_stream_id_parts)`: the first of the least. -/
def minByParts (best : List Char) : List (List Char) → Option (List Char)
  | [] => some best
  | value :: values =>
    (streamIdParts best).bind fun least =>
      (streamIdParts value).bind fun parts =>
        minByParts (if pairLess parts least then value else best) values

namespace SafeStreamTrimmer

variable (t : SafeStreamTrimmer)

/-- The cutoff of `_retention_boundary`, in milliseconds. -/
def cutoff (now : ℤ) : ℕ := (max 0 (now - (t.retentionSeconds : ℤ) * 1000)).toNat

/-- `_retention_boundary`, with the clock in milliseconds. -/
def retentionBoundary (now : ℤ) : List Char := decimal (t.cutoff now) ++ ['-', '0']

section Commands

variable {β : Type} (s : EntryStream β)

/-- `int(values.get("pending", 0))`. -/
def pendingCount (values : GroupInfo) : ℕ :=
  match values.lookup "pending" with
  | some (.count n) => n
  | _ => 0

/-- `_text(values["name"])`. -/
def groupName (values : GroupInfo) : Option String :=
  match values.lookup "name" with
  | some (.name n) => some n
  | _ => none

/-- `_text(values.get("last-delivered-id", "0-0"))`. -/
def lastDeliveredId (values : GroupInfo) : List Char :=
  match values.lookup "last-delivered-id" with
  | some (.text t) => t
  | _ => zeroId

/-- One entry of the list that `_groups` returns. -/
def groupEntry (pendingByGroup : List (String × PendingSummary)) (values : GroupInfo) :
    Option ConsumerGroupBoundary :=
  (groupName values).bind fun name =>
    if pendingCount values > 0 then
      (pendingByGroup.lookup name).map fun pending =>
        ⟨name, lastDeliveredId values, pendingCount values, pending.min⟩
    else some ⟨name, lastDeliveredId values, pendingCount values, none⟩

/-- `_groups`. -/
def groups : Option (List ConsumerGroupBoundary) :=
  let rawGroups := s.xinfoGroups
  ((rawGroups.filter fun values => pendingCount values > 0).mapM groupName).bind fun names =>
    (names.mapM fun name => (s.xpending name).map fun pending => (name, pending)).bind
      fun pendingByGroup => rawGroups.mapM (groupEntry pendingByGroup)

/-- `_tail_boundary`. -/
def tailBoundary : Option (List Char) :=
  if t.minimumRetainedEntries = 0 then none
  else
    let rows := s.xrevrange t.minimumRetainedEntries
    if rows.length < t.minimumRetainedEntries then none else rows.getLast?

/-- The boundaries of `plan` after the first. -/
def boundaries (tail : Option (List Char)) (groups : List ConsumerGroupBoundary) :
    List (List Char) :=
  tail.toList ++ groups.flatMap fun g => g.lastDeliveredId :: g.oldestPendingId.toList

end Commands

variable {β : Type}

/-- `plan`, on a key that does not change meanwhile. -/
def plan (key : Option (EntryStream β)) (now : ℤ) : Option StreamTrimPlan :=
  let retention := t.retentionBoundary now
  match key with
  | none => some ⟨false, 0, retention, none, [], none⟩
  | some s =>
    let length := s.xlen
    if length ≤ t.minimumRetainedEntries then
      (groups s).map fun groups => ⟨true, length, retention, none, groups, none⟩
    else
      let tail := t.tailBoundary s
      (groups s).bind fun groups =>
        (minByParts retention (boundaries tail groups)).map fun boundary =>
          ⟨true, length, retention, tail, groups, some boundary⟩

/-- `trim`: the script on the key. -/
def trim (key : Option (EntryStream β)) (now : ℤ) :
    Option (Option (EntryStream β) × StreamTrimResult) :=
  (safeTrimScript key (t.retentionBoundary now) t.minimumRetainedEntries t.redisStreamMode).map
    fun (after, reply) => (after, ⟨reply.removed, reply.boundary, reply.groups, reply.length⟩)

/-- Trims one after the other, on a stream that nobody else uses and at one clock; the count is the
number of entries removed in total. -/
def trims (now : ℤ) : ℕ → Option (EntryStream β) → Option (Option (EntryStream β) × ℕ)
  | 0, key => some (key, 0)
  | k + 1, key =>
    (t.trim key now).bind fun (after, result) =>
      (trims now k after).map fun (last, removed) => (last, result.removedEntries + removed)

end SafeStreamTrimmer

end ExAgent.Transport
