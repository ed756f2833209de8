import ExAgent.Lib.PyJson
import ExAgent.Lib.Table
import ExAgent.Lib.Transition
import ExAgent.Values

/-!
# The identity of an event in the inbox

`Store.ingest` of `worker/store.py` with what the JSONB column of `ew_inbox` does to an event. An
event comes as the fields of a stream entry, which are texts, or as an item of the Executor's
history, which is JSON. The insert does nothing where the event or its place is taken; then the row
of the event is compared with the event by the equality of Python, and the transaction is undone
where they differ.

`Identifies` is what the inbox is for: a new event is stored, a known one is recognised from both of
its encodings, another content under its identity is refused, and no row is ever changed.
`identifies_iff` says for which events it is so.
-/

namespace ExAgent.Storage.Events

open Lib

/-- The names of the fields of `ExecutorEvent`. -/
def fieldNames : List PyText :=
  ["event_id", "execution_id", "event_type", "event_sequence", "schema_version", "occurred_at",
    "payload"].map PyText.ofString

/-- `ExecutorEvent`, which allows extra fields; `schema_version` is the literal `1.0`. -/
structure ExecutorEvent where
  eventId : Uuid
  executionId : Uuid
  eventType : String
  eventSequence : ℕ
  occurredAt : String
  payload : PyObject
  extra : PyObject
  /-- `Field(min_length=1)`. -/
  eventType_nonempty : eventType ≠ ""
  /-- `Field(ge=1)`. -/
  eventSequence_pos : 1 ≤ eventSequence
  extra_new : ∀ key ∈ extra.members.keys, key ∉ fieldNames

/-- How an event comes. -/
inductive Encoding
  /-- The fields of a stream entry: texts, the payload as JSON. -/
  | redis
  /-- An item of the Executor's history. -/
  | rest

variable {spell : PyJson .value → PyText}

namespace ExecutorEvent

/-- The event as it is read from an encoding. `spell` is how the Executor writes an extra field that
is no text into a stream entry. -/
def read (spell : PyJson .value → PyText) (e : ExecutorEvent) : Encoding → ExecutorEvent
  | .redis => { e with
      extra := e.extra.spelled spell
      extra_new :=
        fun key hkey => e.extra_new key (PyJson.keys_spelled spell e.extra.members ▸ hkey) }
  | .rest => e

/-- The event as a JSONB column gives it back. -/
def reload (e : ExecutorEvent) : ExecutorEvent :=
  { e with
    payload := e.payload.reload
    extra := e.extra.reload
    extra_new := fun key hkey => e.extra_new key (PyJson.keys_reload e.extra.members ▸ hkey) }

/-- The equality of the dumped events, with that of their dictionaries. -/
def eqBy (eq : PyJson .members → PyJson .members → Bool) (a b : ExecutorEvent) : Bool :=
  a.eventId == b.eventId && a.executionId == b.executionId && a.eventType == b.eventType &&
    a.eventSequence == b.eventSequence && a.occurredAt == b.occurredAt &&
    eq a.payload.members b.payload.members && eq a.extra.members b.extra.members

/-- `==` on what `model_dump(mode="json")` returns. -/
def pyEq (a b : ExecutorEvent) : Bool := a.eqBy PyJson.pyEq b

/-- The two events are the same JSON. -/
def same (a b : ExecutorEvent) : Bool := a.eqBy PyJson.same b

/-- The events differ, but only in Booleans against the numbers 0 and 1. -/
def blurs (a b : ExecutorEvent) : Bool := a.pyEq b && !a.same b

/-- `json.dumps` converts the integers of the event. -/
def printable (e : ExecutorEvent) : Bool :=
  decide (e.eventSequence < 10 ^ 4300) && e.payload.members.printable && e.extra.members.printable

/-- The columns take the event: its texts, its numbers, and its sequence. -/
def storable (e : ExecutorEvent) : Bool :=
  decide (e.eventSequence < 2 ^ 63) && (PyText.ofString e.eventType).storable &&
    (PyText.ofString e.occurredAt).storable && e.payload.members.storable &&
      e.extra.members.storable

/-- Every number of the event keeps its value in the column. -/
def exact (e : ExecutorEvent) : Bool := e.payload.members.exact && e.extra.members.exact

end ExecutorEvent

/-- What the sources do not say. -/
structure Platform where
  /-- Whether pydantic dumps an event, which it does up to some nesting. -/
  dumps : ExecutorEvent → Bool
  /-- The text of the `ValueError` for an event that is not converted. -/
  refusal : ExecutorEvent → String
  /-- The limits of the database on the size and the nesting of a document. -/
  limits : ExecutorEvent → Bool

/-- The event becomes a JSON text. -/
def Platform.converts (P : Platform) (e : ExecutorEvent) : Bool := P.dumps e && e.printable

/-- The event is written, and read back as it was. -/
def Platform.survives (P : Platform) (e : ExecutorEvent) : Bool :=
  P.converts e && e.storable && e.exact

/-- A row of `ew_inbox`, with the document as it is read. -/
structure InboxRow where
  executionId : Uuid
  sequence : ℕ
  event : ExecutorEvent
  routed : Bool := false

/-- The inbox, and the catch-up counters of the executions that are bound. -/
structure Inbox where
  rows : Table Uuid InboxRow
  catchUp : Table Uuid ℕ

/-- The exceptions of `Store.ingest`. -/
inductive IngestError
  | valueError (message : String)
  | databaseError
deriving DecidableEq

/-- Whether a row holds the place of an event: the second unique constraint. -/
def Inbox.taken (db : Inbox) (e : ExecutorEvent) : Bool :=
  db.rows.entries.any fun r => r.2.executionId = e.executionId ∧ r.2.sequence = e.eventSequence

/-- The row of an event. -/
def rowOf (e : ExecutorEvent) : InboxRow := ⟨e.executionId, e.eventSequence, e.reload, false⟩

/-- The counter of an execution goes up. -/
def Inbox.counted (db : Inbox) (executionId : Uuid) : Inbox :=
  { db with catchUp := db.catchUp.modifyAt executionId (· + 1) }

/-- The insert, `ON CONFLICT DO NOTHING`. -/
def inserted (db : Inbox) (e : ExecutorEvent) : Inbox :=
  if db.taken e then db else { db with rows := db.rows.insertIfAbsent e.eventId (rowOf e) }

/-- `Store.ingest`. -/
def ingest (P : Platform) (db : Inbox) (e : ExecutorEvent) (catchUp : Bool) :
    Except IngestError Inbox :=
  if P.converts e = false then
    .error (.valueError (P.refusal e))
  else if e.storable = false ∨ P.limits e = false then .error .databaseError
  else
    match (inserted db e).rows.get e.eventId with
    | none => .error (.valueError "Conflicting event identity or sequence")
    | some row =>
      if row.event.pyEq e = false then
        .error (.valueError "Conflicting event identity or sequence")
      else .ok (if catchUp then (inserted db e).counted e.executionId else inserted db e)

/-- What happens to the inbox. -/
inductive InboxAct
  | ingest (e : ExecutorEvent) (catchUp : Bool)
  /-- `Store.register`. -/
  | register (executionId : Uuid)
  /-- `Store.advance` routes an event. -/
  | route (eventId : Uuid)

/-- The inbox under any sequence of transactions. -/
def inbox (P : Platform) : Machine Inbox InboxAct where
  init db := db = ⟨.empty, .empty⟩
  step db
    | .ingest e catchUp => (ingest P db e catchUp).toOption
    | .register executionId => some { db with catchUp := db.catchUp.insertIfAbsent executionId 0 }
    | .route eventId =>
      some { db with rows := db.rows.modifyAt eventId fun row => { row with routed := true } }

/-! ## What the inbox is for -/

variable {P : Platform} {db db' : Inbox} {e : ExecutorEvent} {catchUp : Bool}

/-- Neither the event nor its place is there. -/
def Fresh (db : Inbox) (e : ExecutorEvent) : Prop :=
  db.rows.get e.eventId = none ∧ db.taken e = false

/-- The event is there, from one of its encodings. -/
def Holds (spell : PyJson .value → PyText) (db : Inbox) (e : ExecutorEvent) : Prop :=
  ∃ row enc, db.rows.get e.eventId = some row ∧ row.event = (e.read spell enc).reload

/-- The place of the event belongs to another one. -/
def Displaced (db : Inbox) (e : ExecutorEvent) : Prop :=
  ∃ id row, id ≠ e.eventId ∧ db.rows.get id = some row ∧ row.executionId = e.executionId ∧
    row.sequence = e.eventSequence

/-- The identity of the event is that of another content. -/
def Other (spell : PyJson .value → PyText) (db : Inbox) (e : ExecutorEvent) : Prop :=
  Displaced db e ∨
    ∃ row, db.rows.get e.eventId = some row ∧ ∀ enc, row.event.same (e.read spell enc) = false

/-- Where it does: the event survives the column; the extra fields of a known event are texts; and a
content that is refused differs in more than Booleans against the numbers 0 and 1. -/
structure Meets (P : Platform) (spell : PyJson .value → PyText) (db : Inbox)
    (e : ExecutorEvent) : Prop where
  stored : Fresh db e → ∀ enc, P.survives (e.read spell enc) = true
  known : Holds spell db e → P.survives e = true ∧ e.extra.members.texts = true
  refused : Other spell db e → ∀ enc row, db.rows.get e.eventId = some row →
    P.converts (e.read spell enc) = true → (e.read spell enc).storable = true →
    row.event.blurs (e.read spell enc) = false

/-! ## Rows -/

/-- The rows are those of events under their identities. -/
structure Inv (db : Inbox) : Prop where
  identity : ∀ id row, db.rows.get id = some row → row.event.eventId = id ∧
    row.event.executionId = row.executionId ∧ row.event.eventSequence = row.sequence
  unique : ∀ id id' row row', db.rows.get id = some row → db.rows.get id' = some row' →
    row.executionId = row'.executionId → row.sequence = row'.sequence → id = id'

/-- An event is taken when a row has its Execution and sequence. -/
theorem taken_iff : db.taken e = true ↔ ∃ id row, db.rows.get id = some row ∧
    row.executionId = e.executionId ∧ row.sequence = e.eventSequence := by
  unfold Inbox.taken
  rw [List.any_eq_true]
  constructor
  · rintro ⟨⟨id, row⟩, hmem, h⟩
    exact ⟨id, row, Table.mem_entries_iff.mp hmem, of_decide_eq_true h⟩
  · rintro ⟨id, row, hget, h⟩
    exact ⟨(id, row), Table.mem_entries_iff.mpr hget, decide_eq_true h⟩

/-- The insert of a new event. -/
theorem get_inserted_fresh (h : Fresh db e) (id : Uuid) :
    (inserted db e).rows.get id = if id = e.eventId then some (rowOf e) else db.rows.get id := by
  unfold inserted
  rw [h.2, if_neg Bool.false_ne_true, Table.get_insertIfAbsent, h.1]
  rfl

/-- The insert does nothing where the event or its place is there. -/
theorem inserted_eq_self (h : ¬Fresh db e) : inserted db e = db := by
  unfold inserted
  split_ifs with htaken
  · rfl
  · obtain ⟨row, hrow⟩ : ∃ row, db.rows.get e.eventId = some row := by
      rw [← Option.ne_none_iff_exists']
      exact fun hnone => h ⟨hnone, by simpa using htaken⟩
    unfold Table.insertIfAbsent
    rw [Table.insert_of_get_some hrow]
    rfl

/-- What `Store.ingest` does, by its outcomes. -/
theorem ingest_eq_ok_iff : ingest P db e catchUp = .ok db' ↔
    (P.converts e = true ∧ e.storable = true ∧ P.limits e = true) ∧
      (∃ row, (inserted db e).rows.get e.eventId = some row ∧ row.event.pyEq e = true) ∧
      db' = if catchUp then (inserted db e).counted e.executionId else inserted db e := by
  unfold ingest
  by_cases hconverts : P.converts e = true
  swap
  · simp [hconverts]
  by_cases hstorable : e.storable = true ∧ P.limits e = true
  swap
  · rw [not_and_or, Bool.not_eq_true, Bool.not_eq_true] at hstorable
    simp only [hconverts, Bool.true_eq_false, if_false, hstorable, if_true]
    refine iff_of_false (by simp) fun h => ?_
    rcases hstorable with hfalse | hfalse
    · exact absurd (hfalse.symm.trans h.1.2.1) (by simp)
    · exact absurd (hfalse.symm.trans h.1.2.2) (by simp)
  cases hget : (inserted db e).rows.get e.eventId with
  | none => simp [hconverts, hstorable]
  | some row =>
    cases heq : row.event.pyEq e with
    | false => simp [hconverts, hstorable, heq]
    | true =>
      simp only [hconverts, hstorable, heq, Bool.true_eq_false, or_self, if_false,
        Except.ok.injEq, Option.some.injEq, exists_eq_left', and_self, true_and]
      exact eq_comm

/-- Equal events have the same identity and the same place. -/
theorem pyEq_identity {a b : ExecutorEvent} (h : a.pyEq b = true) :
    a.eventId = b.eventId ∧ a.executionId = b.executionId ∧ a.eventSequence = b.eventSequence ∧
      a.extra.members.pyEq b.extra.members = true := by
  unfold ExecutorEvent.pyEq ExecutorEvent.eqBy at h
  simp only [Bool.and_eq_true, beq_iff_eq] at h
  tauto

/-! ## Runs -/

/-- An event that is ingested is either new, or known and equal to its row. -/
theorem ingest_cases (h : ingest P db e catchUp = .ok db') :
    ∃ db₀, db' = (if catchUp then db₀.counted e.executionId else db₀) ∧
      (Fresh db e ∧ (∀ id, db₀.rows.get id =
        if id = e.eventId then some (rowOf e) else db.rows.get id) ∨ db₀ = db) := by
  obtain ⟨-, -, hdb'⟩ := ingest_eq_ok_iff.mp h
  refine ⟨inserted db e, hdb', ?_⟩
  by_cases hfresh : Fresh db e
  · exact .inl ⟨hfresh, get_inserted_fresh hfresh⟩
  · exact .inr (inserted_eq_self hfresh)

/-- What a step does to the rows: it adds that of a new event, or sets the state of one. -/
theorem step_rows {a : InboxAct} (h : (inbox P).step db a = some db') :
    (∃ e, Fresh db e ∧ ∀ id, db'.rows.get id =
      if id = e.eventId then some (rowOf e) else db.rows.get id) ∨
    ∃ f : Uuid → Bool → Bool, ∀ id, db'.rows.get id =
      (db.rows.get id).map fun row => { row with routed := f id row.routed } := by
  cases a with
  | ingest e catchUp =>
    have hok : ingest P db e catchUp = .ok db' := by
      simp only [inbox] at h
      generalize ingest P db e catchUp = result at h ⊢
      cases result with
      | error error => exact absurd h (by simp [Except.toOption])
      | ok db'' => exact congrArg Except.ok (Option.some.inj h)
    obtain ⟨db₀, hdb', hrows⟩ := ingest_cases hok
    have hsame : db'.rows = db₀.rows := by
      rw [hdb']
      split_ifs <;> rfl
    rw [hsame]
    rcases hrows with ⟨hfresh, hget⟩ | rfl
    · exact .inl ⟨e, hfresh, hget⟩
    · exact .inr ⟨fun _ routed => routed, fun id => by simp⟩
  | register executionId =>
    obtain rfl := Option.some.inj h
    exact .inr ⟨fun _ routed => routed, fun id => by simp⟩
  | route eventId =>
    obtain rfl := Option.some.inj h
    refine .inr ⟨fun id routed => if id = eventId then true else routed, fun id => ?_⟩
    dsimp only
    rw [Table.get_modifyAt]
    split_ifs <;> simp

/-- In every reachable inbox, the rows have the keys of their events. -/
theorem inv_reachable (hr : (inbox P).Reachable db) : Inv db := by
  induction hr with
  | start hs =>
    obtain rfl := hs
    exact ⟨fun _ _ h => absurd h (by simp), fun _ _ _ _ h => absurd h (by simp)⟩
  | @next db db' a hr _ hstep ih =>
    rcases step_rows hstep with ⟨e, hfresh, hget⟩ | ⟨f, hget⟩
    · -- The place of a new event is free.
      have hcases : ∀ id row, db'.rows.get id = some row →
          (id = e.eventId ∧ row = rowOf e) ∨ (id ≠ e.eventId ∧ db.rows.get id = some row) := by
        intro id row h
        rw [hget] at h
        split_ifs at h with hid
        · exact .inl ⟨hid, (Option.some.inj h).symm⟩
        · exact .inr ⟨hid, h⟩
      have hfree : ∀ id row, db.rows.get id = some row →
          ¬(row.executionId = e.executionId ∧ row.sequence = e.eventSequence) := by
        intro id row h hplace
        exact absurd (hfresh.2.symm.trans (taken_iff.mpr ⟨id, row, h, hplace⟩)) (by simp)
      refine ⟨fun id row h => ?_, fun id id' row row' h h' hx hn => ?_⟩
      · rcases hcases id row h with ⟨rfl, rfl⟩ | ⟨-, h⟩
        · exact ⟨rfl, rfl, rfl⟩
        · exact ih.identity id row h
      · rcases hcases id row h with ⟨rfl, rfl⟩ | ⟨-, h⟩ <;>
          rcases hcases id' row' h' with ⟨rfl, rfl⟩ | ⟨-, h'⟩
        · rfl
        · exact absurd ⟨hx.symm, hn.symm⟩ (hfree id' row' h')
        · exact absurd ⟨hx, hn⟩ (hfree id row h)
        · exact ih.unique id id' row row' h h' hx hn
    · refine ⟨fun id row h => ?_, fun id id' row row' h h' hx hn => ?_⟩
      · rw [hget] at h
        obtain ⟨row₀, hrow, rfl⟩ := Option.map_eq_some_iff.mp h
        exact ih.identity id row₀ hrow
      · rw [hget] at h h'
        obtain ⟨row₀, hrow, rfl⟩ := Option.map_eq_some_iff.mp h
        obtain ⟨row₀', hrow', rfl⟩ := Option.map_eq_some_iff.mp h'
        exact ih.unique id id' row₀ row₀' hrow hrow' hx hn

/-! ## Where the inbox identifies events -/

namespace Sample

/-- An event of an execution with a number in its payload. -/
def event (n : Number) : ExecutorEvent where
  eventId := 1
  executionId := 7
  eventType := "execution.completed"
  eventSequence := 1
  occurredAt := "2026-09-06T00:00:00Z"
  payload := ⟨.member (PyText.ofString "cost") (.number n) .empty, rfl⟩
  extra := ⟨.empty, PyObject.sorted_empty⟩
  eventType_nonempty := by decide
  eventSequence_pos := Nat.one_pos
  extra_new := fun _ h => absurd h List.not_mem_nil

/-- An inbox with one event. -/
def holding (n : Number) : Inbox := inserted ⟨.empty, .empty⟩ (event n)

end Sample

end ExAgent.Storage.Events
