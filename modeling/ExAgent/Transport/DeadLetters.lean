import ExAgent.Lib.JsonText
import ExAgent.Lib.Keyset
import ExAgent.Lib.Sha256
import ExAgent.Transport.StreamIds

/-!
# Dead-letter entries

What the consumer writes for a message that it gives up (`_dead_letter` of `worker/consumer.py`),
what `DeadLetterEntry.from_redis` makes of an entry, and the pages of
`DeadLetterManager.list_entries` (`ex_agent/transport/dlq.py`). The fields of a message travel as a
JSON text, in key order and not escaped to ASCII; whatever code points they hold, they are read back
(`fromRedis_deadLetter`).
-/

namespace ExAgent.Transport

open Lib Lib.JsonText Worker.RedisStreamConsumer

/-- A dictionary of texts; its members stand in key order, since no reader looks at another
order. -/
structure FieldMap where
  members : List (PyText × PyText)
  sorted : (members.map Prod.fst).Pairwise (· < ·)
deriving DecidableEq

/-- The names of an entry's fields, and other texts of the source. -/
abbrev key (s : String) : PyText := PyText.ofString s

/-- `values.get`. -/
def getField (values : List (PyText × PyText)) (name : String) : Option PyText :=
  (values.find? fun v => v.1 = key name).map Prod.snd

/-- `_failure_id` of the consumer, and `_stable_identity`. -/
def stableIdentity (stream group messageId : PyText) : PyText :=
  (Sha256.hexdigest (Utf8.encode (stream ++ 0 :: group ++ 0 :: messageId))).map Char.toNat

/-! ## Writing an entry -/

/-- The stream and the group of a consumer. -/
structure Source where
  stream : PyText
  group : PyText

/-- A message of a stream. -/
structure StreamMessage where
  messageId : PyText
  fields : FieldMap
  reclaimed : Bool

/-- What the consumer knows of the failure. -/
structure Failure where
  consumer : PyText
  reason : PyText
  retryAttempts : ℕ
  errorType : PyText
  /-- `datetime.now(UTC).isoformat()`. -/
  deadLetteredAt : PyText

/-- The fields that `_dead_letter` adds to the dead-letter stream. An integer of more than 4300
digits has no text, and the call raises. -/
def deadLetterValues (source : Source) (message : StreamMessage) (failure : Failure) :
    Option (List (PyText × PyText)) :=
  if Short failure.retryAttempts then
    some [(key "schema_version", key "1"),
      (key "failure_id", stableIdentity source.stream source.group message.messageId),
      (key "dead_lettered_at", failure.deadLetteredAt),
      (key "source_stream", source.stream),
      (key "source_group", source.group),
      (key "source_message_id", message.messageId),
      (key "consumer", failure.consumer),
      (key "error_type", failure.errorType),
      (key "reason", failure.reason),
      (key "retry_attempts", (decimal failure.retryAttempts).map Char.toNat),
      (key "reclaimed", if message.reclaimed then key "true" else key "false"),
      (key "fields", dumpsTexts false [44, 32] [58, 32] message.fields.members)]
  else none

/-! ## Reading an entry -/

/-- `DeadLetterEntry`. -/
structure DeadLetterEntry where
  entryId : List Char
  schemaVersion : PyText
  failureId : PyText
  sourceStream : PyText
  sourceGroup : PyText
  sourceMessageId : PyText
  reason : PyText
  retryAttempts : ℤ
  /-- The dictionary, in key order. -/
  fields : List (PyText × PyText)
  deadLetteredAt : Option PyText
  consumer : Option PyText
  errorType : Option PyText
  reclaimed : Bool
deriving Inhabited

/-- The members of a dictionary, with their values as texts. -/
def items (spell : PyJson .value → PyText) : ∀ {k : JsonKind}, PyJson k → List (PyText × PyText)
  | _, .member name value rest => (name, str spell value) :: items spell rest
  | _, _ => []

/-- `str.lower` of the letters of ASCII. -/
def lower (t : PyText) : PyText := t.map fun c => if 65 ≤ c ∧ c ≤ 90 then c + 32 else c

/-- The dictionary of a JSON text, with its values as texts. -/
def loadFields (spell : PyJson .value → PyText) (text : PyText) : Option (List (PyText × PyText)) :=
  match loads text with
  | some (.dict members) => some (items spell members)
  | _ => none

/-- `DeadLetterEntry.from_redis`; `none` where it raises `DeadLetterFormatError`. -/
def DeadLetterEntry.fromRedis (spell : PyJson .value → PyText) (entryId : List Char)
    (values : List (PyText × PyText)) : Option DeadLetterEntry := do
  let text ← getField values "fields"
  let fields ← loadFields spell text
  let sourceStream ← getField values "source_stream"
  let sourceGroup ← getField values "source_group"
  let sourceMessageId ← getField values "source_message_id"
  let reason ← getField values "reason"
  let retryAttempts ← intOfText (((getField values "retry_attempts").getD (key "0")).map Char.ofNat)
  let failureId := match getField values "failure_id" with
    -- An empty identity counts as none.
    | some (c :: id) => c :: id
    | _ => stableIdentity sourceStream sourceGroup sourceMessageId
  some {
    entryId := entryId
    schemaVersion := (getField values "schema_version").getD (key "0")
    failureId := failureId
    sourceStream := sourceStream
    sourceGroup := sourceGroup
    sourceMessageId := sourceMessageId
    reason := reason
    retryAttempts := retryAttempts
    fields := fields
    deadLetteredAt := getField values "dead_lettered_at"
    consumer := getField values "consumer"
    errorType := getField values "error_type"
    reclaimed := lower ((getField values "reclaimed").getD (key "false")) = key "true" }

/-! ## What is written is read back -/

/-- The reader makes of members in key order the dictionary of these members. -/
theorem items_collect (spell : PyJson .value → PyText) {members : List (PyText × PyText)}
    (h : (members.map Prod.fst).Pairwise (· < ·)) : items spell (collect members) = members := by
  induction members with
  | nil => rfl
  | cons m rest ih =>
    rw [collect_cons h]
    show (m.1, m.2) :: items spell (collect rest) = _
    rw [ih (List.pairwise_cons.mp h).2]

/-- The entry of a message that was given up has the fields, the stream, the group and the id of the
message. -/
theorem fromRedis_deadLetter (spell : PyJson .value → PyText)
    (entryId : List Char) {source : Source}
    {message : StreamMessage} {failure : Failure} {values : List (PyText × PyText)}
    (h : deadLetterValues source message failure = some values) :
    ∃ entry, DeadLetterEntry.fromRedis spell entryId values = some entry ∧
      entry.entryId = entryId ∧ entry.fields = message.fields.members ∧
      entry.sourceStream = source.stream ∧ entry.sourceGroup = source.group ∧
      entry.sourceMessageId = message.messageId := by
  unfold deadLetterValues at h
  by_cases hshort : Short failure.retryAttempts
  · rw [if_pos hshort] at h
    -- The fields that were written are read back one by one.
    have hvalues := Option.some.inj h
    have hfields : getField values "fields" =
        some (dumpsTexts false [44, 32] [58, 32] message.fields.members) := by rw [← hvalues]; rfl
    have hstream : getField values "source_stream" = some source.stream := by rw [← hvalues]; rfl
    have hgroup : getField values "source_group" = some source.group := by rw [← hvalues]; rfl
    have hid : getField values "source_message_id" = some message.messageId := by
      rw [← hvalues]; rfl
    have hreason : getField values "reason" = some failure.reason := by rw [← hvalues]; rfl
    have hattempts : getField values "retry_attempts" =
        some ((decimal failure.retryAttempts).map Char.toNat) := by rw [← hvalues]; rfl
    have hloads : loadFields spell (dumpsTexts false [44, 32] [58, 32] message.fields.members) =
        some message.fields.members := by
      have hblank : ∀ c ∈ ([32] : PyText), c = 32 := by decide
      unfold loadFields
      rw [loads_dumpsTexts hblank]
      exact congrArg some (items_collect spell message.fields.sorted)
    -- The count is read back as a number, unless it is too long for `int`.
    have hint : intOfText (((decimal failure.retryAttempts).map Char.toNat).map Char.ofNat) =
        some (failure.retryAttempts : ℤ) := by
      have hchars : ((decimal failure.retryAttempts).map Char.toNat).map Char.ofNat =
          decimal failure.retryAttempts := by
        rw [List.map_map]
        exact (List.map_congr_left fun c _ => Char.ofNat_toNat c).trans (List.map_id _)
      rw [hchars, intOfText_decimal, if_pos hshort]
    unfold DeadLetterEntry.fromRedis
    simp only [hfields, hloads, hstream, hgroup, hid, hreason, hattempts, hint, Option.getD_some,
      Option.bind_eq_bind, Option.bind_some]
    exact ⟨_, rfl, rfl, rfl, rfl, rfl, rfl⟩
  · rw [if_neg hshort] at h
    cases h

/-! ## Listing the entries -/

/-- A stream of entries with fields. -/
abbrev FieldStream := EntryStream (List (PyText × PyText))

/-- `XRANGE stream min + COUNT n`; `none` where `min` is no ID. -/
def xrangeFrom (s : FieldStream) (min : List Char) (n : ℕ) :
    Option (List (List Char × List (PyText × PyText))) :=
  let rows (least : StreamId) :=
    ((s.entries.filter fun e => least ≤ e.1).take n).map fun e => (e.1.text, e.2)
  if min = ['-'] then some (rows (toLex (0, 0))) else (StreamId.parse min).map rows

/-- What `list_entries` raises: for its limit, for a cursor that is no ID, for an entry that is not
well formed, or the error of the server. -/
inductive ListError
  | limit
  | cursor
  | format
  | response
deriving DecidableEq

/-- The least ID of a page: the next one after the cursor. -/
def minimumOf (after : Option (List Char)) : Option (Option (List Char)) :=
  match after with
  | none => some (some ['-'])
  | some id => nextStreamIdText id

/-- `DeadLetterManager.list_entries`. -/
def listEntries (spell : PyJson .value → PyText) (s : FieldStream) (limit : ℤ)
    (after : Option (List Char)) : Except ListError (List DeadLetterEntry × Option (List Char)) :=
  if ¬(1 ≤ limit ∧ limit ≤ 1000) then .error .limit
  else
    match minimumOf after with
    | none => .error .cursor
    | some none => .ok ([], none)
    | some (some minimum) =>
      match xrangeFrom s minimum (limit.toNat + 1) with
      | none => .error .response
      | some rows =>
        match (rows.take limit.toNat).mapM fun row =>
          DeadLetterEntry.fromRedis spell row.1 row.2 with
        | none => .error .format
        | some entries =>
          .ok (entries, if limit.toNat < rows.length then
            entries.getLast?.map (·.entryId) else none)

/-- An entry that is read has the ID it was read under. -/
theorem fromRedis_entryId {spell : PyJson .value → PyText} {entryId : List Char}
    {values : List (PyText × PyText)} {entry : DeadLetterEntry}
    (h : DeadLetterEntry.fromRedis spell entryId values = some entry) :
    entry.entryId = entryId := by
  unfold DeadLetterEntry.fromRedis at h
  simp only [Option.bind_eq_bind, Option.bind_eq_some_iff] at h
  obtain ⟨_, _, _, _, _, _, _, _, _, _, _, _, _, _, hentry⟩ := h
  rw [← Option.some.inj hentry]

/-- What `DeadLetterEntry.from_redis` makes of the rows of a stream. -/
def entryOf (spell : PyJson .value → PyText) (e : StreamId × List (PyText × PyText)) :
    DeadLetterEntry :=
  (DeadLetterEntry.fromRedis spell e.1.text e.2).getD default

/-- Every entry is well formed, and has an ID of the server. -/
structure WellFormed (spell : PyJson .value → PyText) (s : FieldStream) : Prop where
  parses : ∀ e ∈ s.entries, (DeadLetterEntry.fromRedis spell e.1.text e.2).isSome
  fits : ∀ e ∈ s.entries, Fits e.1

variable {spell : PyJson .value → PyText} {s : FieldStream} {limit : ℤ}

/-- An entry of a well-formed queue is read as its dead letter, under its own ID. -/
theorem WellFormed.entryOf (h : WellFormed spell s) {e : StreamId × List (PyText × PyText)}
    (he : e ∈ s.entries) :
    DeadLetterEntry.fromRedis spell e.1.text e.2 = some (entryOf spell e) ∧
      (Transport.entryOf spell e).entryId = e.1.text := by
  obtain ⟨entry, hentry⟩ := Option.isSome_iff_exists.mp (h.parses e he)
  have hof : Transport.entryOf spell e = entry := by
    unfold Transport.entryOf
    rw [hentry]
    rfl
  rw [hof]
  exact ⟨hentry, fromRedis_entryId hentry⟩

/-- The rows that are read of a cursor: those after it. -/
theorem xrangeFrom_next (h : WellFormed spell s) {e : StreamId × List (PyText × PyText)}
    (he : e ∈ s.entries) {next : StreamId} (hnext : nextStreamId e.1 = some next) (n : ℕ) :
    xrangeFrom s next.text n = some
      (((Keyset.after Prod.fst (some e.1) s.entries).take n).map fun e => (e.1.text, e.2)) := by
  have hne : next.text ≠ ['-'] := by
    intro heq
    have hparse := congrArg StreamId.parse heq
    rw [StreamId.parse_text] at hparse
    have hnone : StreamId.parse ['-'] = none := by decide
    rw [hnone] at hparse
    cases hparse
  have hfilter : s.entries.filter (fun x => next ≤ x.1) =
      Keyset.after Prod.fst (some e.1) s.entries := by
    refine List.filter_congr fun x hx => ?_
    have hbefore := before_nextStreamId (h.fits e he) (h.fits x hx)
    rw [hnext] at hbefore
    have hlt : x.1 < next ↔ x.1 ≤ e.1 :=
      ⟨fun hlt => hbefore.mp fun m hm => Option.some.inj hm ▸ hlt,
        fun hle => hbefore.mpr hle next rfl⟩
    simp only [Option.mem_def, Option.some.injEq, forall_eq', decide_eq_decide]
    rw [← not_lt, hlt, not_le]
  unfold xrangeFrom
  rw [if_neg hne, StreamId.parse_text]
  simp only [Option.map_some, hfilter]

/-- A page from the rows that the server returns. -/
theorem listEntries_page (h : WellFormed spell s) (hlimit : 1 ≤ limit ∧ limit ≤ 1000)
    {after : Option (List Char)} {minimum : List Char}
    {rows : List (StreamId × List (PyText × PyText))}
    (hafter : minimumOf after = some (some minimum))
    (hrows : ∀ n, xrangeFrom s minimum n = some ((rows.take n).map fun e => (e.1.text, e.2)))
    (hmem : ∀ e ∈ rows, e ∈ s.entries) :
    listEntries spell s limit after =
      .ok ((Keyset.pageOf limit.toNat rows).1.map (entryOf spell),
        (Keyset.pageOf limit.toNat rows).2.map fun e => e.1.text) := by
  have hvisible : ∀ e ∈ (rows.take (limit.toNat + 1)).take limit.toNat, e ∈ s.entries := fun e he =>
    hmem e (List.mem_of_mem_take (List.mem_of_mem_take he))
  have hentries :
    (((rows.take (limit.toNat + 1)).map fun e => (e.1.text, e.2)).take limit.toNat).mapM
      (fun row => DeadLetterEntry.fromRedis spell row.1 row.2) =
      some (((rows.take (limit.toNat + 1)).take limit.toNat).map (entryOf spell)) := by
    rw [← List.map_take, List.mapM_map]
    exact Fallible.mapM_eq_some _ fun e he => (h.entryOf (hvisible e he)).1
  unfold listEntries Keyset.pageOf
  rw [if_neg (not_not.mpr hlimit), hafter]
  dsimp only
  rw [hrows]
  dsimp only
  rw [hentries]
  dsimp only
  rw [List.length_map, List.getLast?_map]
  congr 2
  split_ifs
  · cases hlast : ((rows.take (limit.toNat + 1)).take limit.toNat).getLast? with
    | none => rfl
    | some e => exact congrArg some (h.entryOf (hvisible e (List.mem_of_getLast? hlast))).2
  · rfl

/-- Following the cursors of `list_entries` reads every entry once, in the order of the stream. -/
theorem walk_listEntries (h : WellFormed spell s) (hlimit : 1 ≤ limit ∧ limit ≤ 1000) :
    Keyset.Walk (listEntries spell s limit) none (s.entries.map (entryOf spell)) := by
  have hsorted : s.entries.Pairwise fun a b => a.1 < b.1 := List.pairwise_map.mp s.sorted
  have hpos : 0 < limit.toNat := by omega
  have hfirst : listEntries spell s limit none =
      .ok ((Keyset.pageOf limit.toNat s.entries).1.map (entryOf spell),
        (Keyset.pageOf limit.toNat s.entries).2.map fun e => e.1.text) := by
    have hmin : minimumOf none = some (some ['-']) := rfl
    refine listEntries_page h hlimit hmin (fun n => ?_) fun e he => he
    have hall : s.entries.filter (fun e => toLex (0, 0) ≤ e.1) = s.entries :=
      List.filter_eq_self.mpr fun e _ => decide_eq_true (by
        rw [← not_lt, StreamId.lt_iff]
        simp [StreamId.milliseconds, StreamId.sequence])
    unfold xrangeFrom
    rw [if_pos rfl]
    simp only [hall]
  refine Keyset.walk_of_pages (Keyset.splits_pageOf hpos) hsorted hfirst fun e he => ?_
  have htext : minimumOf (some e.1.text) = some ((nextStreamId e.1).map StreamId.text) := by
    show nextStreamIdText e.1.text = _
    rw [nextStreamIdText_text, if_pos (h.fits e he)]
  cases hnext : nextStreamId e.1 with
  | some next =>
    rw [hnext] at htext
    exact listEntries_page h hlimit htext (xrangeFrom_next h he hnext) fun x hx =>
      List.mem_of_mem_filter hx
  | none =>
    -- No ID is above the greatest one.
    have hnil : Keyset.after Prod.fst (some e.1) s.entries = [] := by
      refine List.filter_eq_nil_iff.mpr fun x hx => ?_
      have hle :=
        (before_nextStreamId (h.fits e he) (h.fits x hx)).mp (by rw [hnext]; intro c hc; cases hc)
      simpa using hle
    rw [hnext] at htext
    rw [hnil]
    unfold listEntries
    rw [if_neg (not_not.mpr hlimit), htext]
    simp [Keyset.pageOf]

end ExAgent.Transport
