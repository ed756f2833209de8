import Mathlib.Data.List.Sort
import ExAgent.Lib.Transition
import ExAgent.Values

/-!
# The event stream of a Task

`GET /tasks/{task_id}/events` sends the rows of `agent_task_events` as server-sent events. A
connection polls `events_after` with the largest id it has sent so far, and a client that comes back
names the last id it has read in `Last-Event-ID`. The ids come from one sequence when a row is
inserted; the row is seen by `events_after` when its transaction commits.

The system below has any number of writing transactions and one client that connects, reads and
disconnects over and over. What the client is promised is `Complete` and `NoneLate`: every visible
event up to the cursor has been sent once, in the order of the ids, and none becomes visible below
the cursor later. A schedule of the writers keeps the promise for every behaviour of the client
exactly when the transactions that write events of the Task commit in the order of their ids
(`task_events_complete_iff`): id order alone is not enough, because the cursor moves past rows
that are not committed yet.
-/

namespace ExAgent.Api

open Lib

/-! ## The table -/

/-- A row of `agent_task_events`, with the columns the stream reads. -/
structure TaskEvent where
  /-- From the sequence of the table. -/
  id : ℕ
  /-- The Task of the event. -/
  taskId : Uuid
  /-- The name of the event. -/
  eventType : String
  /-- The `data` of the event. -/
  payload : Dict
deriving DecidableEq

/-- The table of events, as the open transactions and the readers see it. -/
structure EventTable where
  /-- The next value of the sequence of the ids. -/
  sequence : ℕ := 1
  /-- The rows inserted by each open transaction. -/
  uncommitted : ℕ → List TaskEvent := fun _ => []
  /-- The rows of the committed transactions. -/
  visible : List TaskEvent := []

/-- What a writer does. -/
inductive Write where
  /-- `session.add(TaskEvent(..))`, as it reaches the database. -/
  | insert (transaction : ℕ) (taskId : Uuid) (eventType : String) (payload : Dict)
  /-- The transaction commits: all its rows become visible at once. -/
  | commit (transaction : ℕ)
  /-- The transaction ends without a commit. -/
  | rollback (transaction : ℕ)

/-- The table after a write. A value of the sequence is used up even when its row is rolled back. -/
def EventTable.write (t : EventTable) : Write → EventTable
  | .insert transaction taskId eventType payload =>
    { t with
      sequence := t.sequence + 1
      uncommitted := Function.update t.uncommitted transaction
        (t.uncommitted transaction ++ [⟨t.sequence, taskId, eventType, payload⟩]) }
  | .commit transaction =>
    { t with
      uncommitted := Function.update t.uncommitted transaction []
      visible := t.visible ++ t.uncommitted transaction }
  | .rollback transaction =>
    { t with uncommitted := Function.update t.uncommitted transaction [] }

/-- The table after a schedule of writes. -/
def EventTable.writes (t : EventTable) (ws : List Write) : EventTable := ws.foldl .write t

/-- `TaskRepository.events_after`. -/
def eventsAfter (t : EventTable) (taskId : Uuid) (afterId : ℕ) (limit : ℕ := 100) :
    List TaskEvent :=
  ((t.visible.filter fun e => e.taskId = taskId ∧ afterId < e.id).insertionSort
    fun a b => a.id ≤ b.id).take limit

/-! ## A client and its connections -/

/-- A piece of the response body. -/
inductive Chunk where
  /-- An event, with its id, name and data. -/
  | event (e : TaskEvent)
  /-- `: keepalive`. -/
  | keepalive
deriving DecidableEq

/-- The event of a chunk. -/
def Chunk.event? : Chunk → Option TaskEvent
  | .event e => some e
  | .keepalive => none

/-- Where the generator `stream` is. -/
inductive StreamPhase where
  /-- At the head of the loop. -/
  | polling
  /-- In the loop over the rows of the last poll. -/
  | sending (events : List TaskEvent)
  /-- In `get_message`. -/
  | waiting

/-- One request to `task_events`, from its start to its end. -/
structure Connection where
  /-- The id of the last event sent. -/
  cursor : ℕ
  /-- Where `stream` is. -/
  phase : StreamPhase
  /-- The chunks that have been sent and that the client has not read. -/
  wire : List Chunk

/-- The events table, and a client with the connection it has open. -/
structure EventSystem where
  /-- `agent_task_events`. -/
  table : EventTable := {}
  /-- The open connection. -/
  connection : Option Connection := none
  /-- The events that the client has read, over all its connections. -/
  received : List TaskEvent := []

namespace EventSystem

/-- What the client sends as `Last-Event-ID`; without an event there is no header and the stream
starts at 0. -/
def lastEventId (s : EventSystem) : ℕ := (s.received.getLast?.map TaskEvent.id).getD 0

/-- The cursor of the chain of connections: where the open connection is or the next one starts. -/
def cursor (s : EventSystem) : ℕ := (s.connection.map Connection.cursor).getD s.lastEventId

/-- The events on the wire. -/
def onWire (s : EventSystem) : List TaskEvent :=
  (s.connection.map fun c => c.wire.filterMap Chunk.event?).getD []

/-- The events sent to the client and not lost with a connection. -/
def delivered (s : EventSystem) : List TaskEvent := s.received ++ s.onWire

end EventSystem

/-- What can happen to a client and its connection. -/
inductive ClientMove where
  /-- A new request; the owner of the Task sends it, so that `owned_task` finds the Task. -/
  | connect
  /-- `events_after` with the cursor. -/
  | poll
  /-- The next row of the poll becomes the cursor and is sent. -/
  | send
  /-- `get_message` returns, with a notification or at its timeout. -/
  | wake (notified : Bool)
  /-- The client reads a chunk. -/
  | receive
  /-- The connection is lost, with what is on the wire. -/
  | disconnect

/-- One iteration's poll: `stream` sends the rows it has found, or waits. -/
def Connection.poll (t : EventTable) (taskId : Uuid) (c : Connection) : Option Connection :=
  match c.phase with
  | .polling =>
    match eventsAfter t taskId c.cursor with
    | [] => some { c with phase := .waiting }
    | events => some { c with phase := .sending events }
  | _ => none

/-- One turn of the loop over the rows: the cursor moves before the row is sent. -/
def Connection.send (c : Connection) : Option Connection :=
  match c.phase with
  | .sending [e] => some ⟨e.id, .polling, c.wire ++ [.event e]⟩
  | .sending (e :: events) => some ⟨e.id, .sending events, c.wire ++ [.event e]⟩
  | _ => none

/-- The end of `get_message`. -/
def Connection.wake (notified : Bool) (c : Connection) : Option Connection :=
  match c.phase with
  | .waiting => some ⟨c.cursor, .polling, if notified then c.wire else c.wire ++ [.keepalive]⟩
  | _ => none

/-- A move of the client of a Task. -/
def EventSystem.move (taskId : Uuid) (s : EventSystem) : ClientMove → Option EventSystem
  | .connect =>
    match s.connection with
    | none => some { s with connection := some ⟨s.lastEventId, .polling, []⟩ }
    | some _ => none
  | .poll =>
    (s.connection.bind (Connection.poll s.table taskId)).map fun c =>
      { s with connection := some c }
  | .send => (s.connection.bind Connection.send).map fun c => { s with connection := some c }
  | .wake notified =>
    (s.connection.bind (Connection.wake notified)).map fun c => { s with connection := some c }
  | .receive =>
    s.connection.bind fun c =>
      match c.wire with
      | [] => none
      | chunk :: wire =>
        some { s with
          connection := some { c with wire }
          received := s.received ++ chunk.event?.toList }
  | .disconnect => some { s with connection := none }

/-- A write, or a move of the client. -/
inductive EventAction where
  /-- A writer moves. -/
  | write (w : Write)
  /-- The client or its connection moves. -/
  | client (m : ClientMove)

/-- The write of an action. -/
def EventAction.write? : EventAction → Option Write
  | .write w => some w
  | .client _ => none

/-- The writers, and a client of the Task. -/
def taskEvents (taskId : Uuid) : Machine EventSystem EventAction where
  init s := s = {}
  step s
    | .write w => some { s with table := s.table.write w }
    | .client m => s.move taskId m

/-! ## What the client is promised -/

/-- Every visible event up to the cursor has been delivered once, and in the order of the ids. -/
structure Complete (taskId : Uuid) (s : EventSystem) : Prop where
  /-- Up to the cursor, every visible event has been sent once. -/
  sent : ∀ e ∈ s.table.visible, e.taskId = taskId → e.id ≤ s.cursor → s.delivered.count e = 1
  /-- Up to `Last-Event-ID`, every visible event has been read once. -/
  read : ∀ e ∈ s.table.visible, e.taskId = taskId → e.id ≤ s.lastEventId →
    s.received.count e = 1
  /-- Events are delivered in the order of their ids. -/
  increasing : s.delivered.Pairwise fun a b => a.id < b.id

/-- No event that becomes visible between `s` and `s'` has an id up to the cursor of `s`. -/
def NoneLate (taskId : Uuid) (s s' : EventSystem) : Prop :=
  ∀ e ∈ s'.table.visible, e.taskId = taskId → e ∉ s.table.visible → s.cursor < e.id

/-- The promise to the client, at every moment of a run and from there to every later one. -/
def Recovers (taskId : Uuid) (actions : List EventAction) : Prop :=
  ∀ before between after s s', actions = before ++ between ++ after →
    (taskEvents taskId).run {} before = some s →
    (taskEvents taskId).run s between = some s' →
    Complete taskId s ∧ NoneLate taskId s s'

/-- A write does not commit an event of the Task below one that is visible. -/
def CommitsInOrder (taskId : Uuid) (t : EventTable) : Write → Prop
  | .commit transaction =>
    ∀ e ∈ t.uncommitted transaction, e.taskId = taskId →
      ∀ e' ∈ t.visible, e'.taskId = taskId → e'.id < e.id
  | _ => True

/-- In a schedule of writes, the transactions commit the events of the Task in the order of their
ids. -/
def InIdOrder (taskId : Uuid) (ws : List Write) : Prop :=
  ∀ before w after, ws = before ++ w :: after →
    CommitsInOrder taskId (EventTable.writes {} before) w

/-! ## The table under writes -/

/-- Every row has an id of its own, from the values the sequence has given out. -/
structure EventTable.Wf (t : EventTable) : Prop where
  /-- The ids of visible rows come from the sequence. -/
  visible_lt : ∀ e ∈ t.visible, 0 < e.id ∧ e.id < t.sequence
  /-- So do the ids of the rows of open transactions. -/
  uncommitted_lt : ∀ n, ∀ e ∈ t.uncommitted n, 0 < e.id ∧ e.id < t.sequence
  /-- Visible rows have different ids. -/
  visible_ne : t.visible.Pairwise fun a b => a.id ≠ b.id
  /-- So have the rows of an open transaction. -/
  uncommitted_ne : ∀ n, (t.uncommitted n).Pairwise fun a b => a.id ≠ b.id
  /-- A row of an open transaction shares its id with no visible row. -/
  unseen : ∀ n, ∀ e ∈ t.uncommitted n, ∀ e' ∈ t.visible, e.id ≠ e'.id
  /-- Two open transactions have no id in common. -/
  apart : ∀ m n, m ≠ n → ∀ e ∈ t.uncommitted m, ∀ e' ∈ t.uncommitted n, e.id ≠ e'.id
  /-- The sequence starts at 1. -/
  positive : 0 < t.sequence

/-- The empty table is well formed. -/
theorem EventTable.wf_empty : EventTable.Wf {} := by
  constructor <;> simp

/-- Rows that leave a transaction leave a well-formed table. -/
theorem EventTable.Wf.rollback {t : EventTable} (h : t.Wf) (n : ℕ) :
    (t.write (.rollback n)).Wf where
  visible_lt := h.visible_lt
  uncommitted_lt m e he := by
    simp only [EventTable.write, Function.update_apply] at he
    split at he
    · simp at he
    · exact h.uncommitted_lt m e he
  visible_ne := h.visible_ne
  uncommitted_ne m := by
    simp only [EventTable.write, Function.update_apply]
    split
    · exact List.Pairwise.nil
    · exact h.uncommitted_ne m
  unseen m e he := by
    simp only [EventTable.write, Function.update_apply] at he
    split at he
    · simp at he
    · exact h.unseen m e he
  apart m k hmk e he e' he' := by
    simp only [EventTable.write, Function.update_apply] at he he'
    split at he
    · simp at he
    split at he'
    · simp at he'
    · exact h.apart m k hmk e he e' he'
  positive := h.positive

/-- A commit keeps the table well formed: its rows had ids of their own already. -/
theorem EventTable.Wf.commit {t : EventTable} (h : t.Wf) (n : ℕ) : (t.write (.commit n)).Wf := by
  have hr := h.rollback n
  refine ⟨?_, hr.uncommitted_lt, ?_, hr.uncommitted_ne, ?_, hr.apart, h.positive⟩
  · intro e he
    rcases List.mem_append.mp he with he | he
    · exact h.visible_lt e he
    · exact h.uncommitted_lt n e he
  · refine List.pairwise_append.mpr ⟨h.visible_ne, h.uncommitted_ne n, ?_⟩
    intro e he e' he'
    exact (h.unseen n e' he' e he).symm
  · intro m e he e' he'
    simp only [EventTable.write, Function.update_apply] at he
    split at he
    · simp at he
    rename_i hm
    rcases List.mem_append.mp he' with he' | he'
    · exact h.unseen m e he e' he'
    · exact h.apart m n hm e he e' he'

/-- The rows of a transaction after an insert. -/
theorem EventTable.mem_insert {t : EventTable} {n m : ℕ} {taskId : Uuid} {eventType : String}
    {payload : Dict} {e : TaskEvent}
    (he : e ∈ (t.write (.insert n taskId eventType payload)).uncommitted m) :
    e ∈ t.uncommitted m ∨ m = n ∧ e.id = t.sequence := by
  simp only [EventTable.write, Function.update_apply] at he
  split at he
  · rename_i hm
    rcases List.mem_append.mp he with he | he
    · exact .inl (hm ▸ he)
    · exact .inr ⟨hm, by rw [List.mem_singleton.mp he]⟩
  · exact .inl he

/-- An insert keeps the table well formed: its row has the next value of the sequence. -/
theorem EventTable.Wf.insert {t : EventTable} (h : t.Wf) (n : ℕ) (taskId : Uuid)
    (eventType : String) (payload : Dict) :
    (t.write (.insert n taskId eventType payload)).Wf where
  visible_lt e he := by
    have := h.visible_lt e he
    exact ⟨this.1, Nat.lt_succ_of_lt this.2⟩
  uncommitted_lt m e he := by
    show 0 < e.id ∧ e.id < t.sequence + 1
    rcases EventTable.mem_insert he with he | ⟨-, he⟩
    · have := h.uncommitted_lt m e he
      omega
    · have := h.positive
      omega
  visible_ne := h.visible_ne
  uncommitted_ne m := by
    simp only [EventTable.write, Function.update_apply]
    split
    · refine List.pairwise_append.mpr ⟨h.uncommitted_ne n, List.pairwise_singleton _ _, ?_⟩
      intro e he e' he'
      rw [List.mem_singleton.mp he']
      exact (h.uncommitted_lt n e he).2.ne
    · exact h.uncommitted_ne m
  unseen m e he e' he' := by
    have hlt := h.visible_lt e' he'
    rcases EventTable.mem_insert he with he | ⟨-, he⟩
    · exact h.unseen m e he e' he'
    · omega
  apart m k hmk e he e' he' := by
    rcases EventTable.mem_insert he with he | ⟨hm, he⟩ <;>
      rcases EventTable.mem_insert he' with he' | ⟨hk, he'⟩
    · exact h.apart m k hmk e he e' he'
    · have := (h.uncommitted_lt m e he).2
      omega
    · have := (h.uncommitted_lt k e' he').2
      omega
    · exact absurd (hm.trans hk.symm) hmk
  positive := Nat.succ_pos _

/-- Every write keeps the table well formed. -/
theorem EventTable.Wf.write {t : EventTable} (h : t.Wf) (w : Write) : (t.write w).Wf := by
  cases w with
  | insert n taskId eventType payload => exact h.insert n taskId eventType payload
  | commit n => exact h.commit n
  | rollback n => exact h.rollback n

/-- So does a schedule of writes. -/
theorem EventTable.Wf.writes {t : EventTable} (h : t.Wf) (ws : List Write) : (t.writes ws).Wf := by
  induction ws generalizing t with
  | nil => exact h
  | cons w ws ih => exact ih (h.write w)

/-- Visible rows stay. -/
theorem EventTable.visible_write {t : EventTable} {w : Write} {e : TaskEvent}
    (he : e ∈ t.visible) : e ∈ (t.write w).visible := by
  cases w with
  | insert n taskId eventType payload => exact he
  | commit n => exact List.mem_append_left _ he
  | rollback n => exact he

/-- A row becomes visible by the commit of its transaction. -/
theorem EventTable.visible_of_write {t : EventTable} {w : Write} {e : TaskEvent}
    (he : e ∈ (t.write w).visible) :
    e ∈ t.visible ∨ ∃ n, w = .commit n ∧ e ∈ t.uncommitted n := by
  cases w with
  | insert n taskId eventType payload => exact .inl he
  | commit n =>
    rcases List.mem_append.mp he with he | he
    · exact .inl he
    · exact .inr ⟨n, rfl, he⟩
  | rollback n => exact .inl he

/-- What a write in order makes visible is above everything visible. -/
theorem CommitsInOrder.fresh {taskId : Uuid} {t : EventTable} {w : Write} {e e' : TaskEvent}
    (h : CommitsInOrder taskId t w) (he : e ∈ (t.write w).visible) (hnew : e ∉ t.visible)
    (hTask : e.taskId = taskId) (he' : e' ∈ t.visible) (hTask' : e'.taskId = taskId) :
    e'.id < e.id := by
  rcases EventTable.visible_of_write he with hold | ⟨n, rfl, hrow⟩
  · exact absurd hold hnew
  · exact h e hrow hTask e' he' hTask'

/-! ## A poll -/

/-- The rows of a poll from a cursor: all rows of the Task from the cursor up to some id, in
order. -/
structure Fetched (taskId : Uuid) (t : EventTable) (cursor : ℕ) (events : List TaskEvent) :
    Prop where
  /-- They are visible rows of the Task above the cursor. -/
  rows : ∀ e ∈ events, e ∈ t.visible ∧ e.taskId = taskId ∧ cursor < e.id
  /-- They come in the order of their ids. -/
  increasing : events.Pairwise fun a b => a.id < b.id
  /-- No row between them is missing. -/
  gapless : ∀ e ∈ t.visible, e.taskId = taskId → cursor < e.id →
    e ∈ events ∨ ∀ e' ∈ events, e'.id < e.id

instance : Std.Total fun a b : TaskEvent => a.id ≤ b.id := ⟨fun a b => Nat.le_total a.id b.id⟩

instance : IsTrans TaskEvent fun a b => a.id ≤ b.id := ⟨fun _ _ _ => Nat.le_trans⟩

/-- `events_after` leaves no row out. -/
theorem fetched_eventsAfter {t : EventTable} (h : t.Wf) (taskId : Uuid) (cursor limit : ℕ) :
    Fetched taskId t cursor (eventsAfter t taskId cursor limit) := by
  set rows := t.visible.filter fun e => e.taskId = taskId ∧ cursor < e.id with hrows
  set sorted := rows.insertionSort fun a b => a.id ≤ b.id with hsorted
  have hmem : ∀ e, e ∈ sorted ↔ e ∈ t.visible ∧ e.taskId = taskId ∧ cursor < e.id := by
    intro e
    rw [hsorted, List.mem_insertionSort, hrows, List.mem_filter, decide_eq_true_iff]
  have hle : sorted.Pairwise fun a b => a.id ≤ b.id := List.pairwise_insertionSort _ _
  have hne : sorted.Pairwise fun a b => a.id ≠ b.id :=
    (List.perm_insertionSort _ rows).symm.pairwise
      (h.visible_ne.sublist List.filter_sublist) fun hab => hab.symm
  have hlt : sorted.Pairwise fun a b => a.id < b.id :=
    (hle.and hne).imp fun hab => lt_of_le_of_ne hab.1 hab.2
  show Fetched taskId t cursor (sorted.take limit)
  refine ⟨fun e he => (hmem e).mp (List.mem_of_mem_take he), hlt.sublist (List.take_sublist _ _),
    fun e he hTask hcursor => ?_⟩
  -- A row that the limit cuts off is behind every row that is kept.
  have he := (hmem e).mpr ⟨he, hTask, hcursor⟩
  rw [← List.take_append_drop limit sorted] at he hlt
  rcases List.mem_append.mp he with he | he
  · exact .inl he
  · exact .inr fun e' he' => (List.pairwise_append.mp hlt).2.2 e' he' e he

/-- A poll finds something when there is something above the cursor. -/
theorem eventsAfter_ne_nil {t : EventTable} {taskId : Uuid} {cursor : ℕ} {e : TaskEvent}
    (he : e ∈ t.visible) (hTask : e.taskId = taskId) (hcursor : cursor < e.id) :
    eventsAfter t taskId cursor ≠ [] := by
  intro hnil
  rcases List.take_eq_nil_iff.mp hnil with hlimit | hempty
  · exact absurd hlimit (by decide)
  · have hmem : e ∈ (t.visible.filter fun e => e.taskId = taskId ∧ cursor < e.id).insertionSort
        fun a b => a.id ≤ b.id := by
      rw [List.mem_insertionSort, List.mem_filter]
      exact ⟨he, decide_eq_true ⟨hTask, hcursor⟩⟩
    rw [hempty] at hmem
    exact absurd hmem List.not_mem_nil

/-- A poll reads; what it starts to send is what `events_after` returned. -/
theorem Connection.poll_spec {t : EventTable} {taskId : Uuid} {c c' : Connection}
    (h : c.poll t taskId = some c') :
    c'.cursor = c.cursor ∧ c'.wire = c.wire ∧
      ∀ events, c'.phase = .sending events → events = eventsAfter t taskId c.cursor := by
  unfold Connection.poll at h
  split at h
  · split at h
    · obtain rfl := Option.some.inj h
      exact ⟨rfl, rfl, fun events hsending => by simp at hsending⟩
    · obtain rfl := Option.some.inj h
      exact ⟨rfl, rfl, fun events hsending => (StreamPhase.sending.inj hsending).symm⟩
  · simp at h

/-- A row is sent: it becomes the cursor and goes on the wire. -/
theorem Connection.send_spec {c c' : Connection} (h : c.send = some c') :
    ∃ e rest phase, c.phase = .sending (e :: rest) ∧
      (phase = .sending rest ∨ phase = .polling) ∧ c' = ⟨e.id, phase, c.wire ++ [.event e]⟩ := by
  unfold Connection.send at h
  split at h
  · exact ⟨_, _, _, ‹_›, .inr rfl, (Option.some.inj h).symm⟩
  · exact ⟨_, _, _, ‹_›, .inl rfl, (Option.some.inj h).symm⟩
  · simp at h

/-- After `get_message` the loop starts again, and no event has been sent. -/
theorem Connection.wake_spec {notified : Bool} {c c' : Connection} (h : c.wake notified = some c') :
    ∃ wire, wire.filterMap Chunk.event? = c.wire.filterMap Chunk.event? ∧
      c' = ⟨c.cursor, .polling, wire⟩ := by
  unfold Connection.wake at h
  split at h
  · refine ⟨_, ?_, (Option.some.inj h).symm⟩
    split
    · rfl
    · simp [Chunk.event?]
  · simp at h

/-! ## The stream under an orderly schedule -/

/-- The id of the last event of a list, or 0. -/
def lastId (events : List TaskEvent) : ℕ := (events.getLast?.map TaskEvent.id).getD 0

/-- The last id is that of the event that was sent last. -/
@[simp]
theorem lastId_concat (events : List TaskEvent) (e : TaskEvent) :
    lastId (events ++ [e]) = e.id := by
  simp [lastId]

/-- The last id is 0 or the id of one of the events. -/
theorem lastId_cases (events : List TaskEvent) :
    lastId events = 0 ∨ ∃ e ∈ events, e.id = lastId events := by
  rcases events.eq_nil_or_concat with rfl | ⟨l, e, rfl⟩
  · exact .inl rfl
  · rw [List.concat_eq_append]
    exact .inr ⟨e, by simp, (lastId_concat l e).symm⟩

/-- In a list in the order of the ids, the last id is the largest. -/
theorem le_lastId {events : List TaskEvent} (h : events.Pairwise fun a b => a.id < b.id)
    {e : TaskEvent} (he : e ∈ events) : e.id ≤ lastId events := by
  rcases events.eq_nil_or_concat with rfl | ⟨l, last, rfl⟩
  · simp at he
  rw [List.concat_eq_append] at he h ⊢
  rw [lastId_concat]
  rcases List.mem_append.mp he with he | he
  · exact ((List.pairwise_append.mp h).2.2 e he last (by simp)).le
  · rw [List.mem_singleton.mp he]

/-- The invariant of the system while transactions commit in order. -/
structure Streaming (taskId : Uuid) (s : EventSystem) : Prop where
  /-- The table is well formed. -/
  wf : s.table.Wf
  /-- Only visible events of the Task are delivered. -/
  genuine : ∀ e ∈ s.delivered, e ∈ s.table.visible ∧ e.taskId = taskId
  /-- They are delivered in the order of their ids. -/
  increasing : s.delivered.Pairwise fun a b => a.id < b.id
  /-- The cursor is at the last of them. -/
  cursor_eq : s.cursor = lastId s.delivered
  /-- Every visible event up to the cursor is among them. -/
  covered : ∀ e ∈ s.table.visible, e.taskId = taskId → e.id ≤ s.cursor → e ∈ s.delivered
  /-- The rows still to be sent are the next ones of the Task. -/
  batch : ∀ c events, s.connection = some c → c.phase = .sending events →
    Fetched taskId s.table c.cursor events

namespace Streaming

variable {taskId : Uuid} {s s' : EventSystem}

/-- Up to `Last-Event-ID`, every visible event has been read: what is on the wire comes later. -/
theorem mem_received (h : Streaming taskId s) {e : TaskEvent} (he : e ∈ s.table.visible)
    (hTask : e.taskId = taskId) (hid : e.id ≤ s.lastEventId) : e ∈ s.received := by
  have hpos := (h.wf.visible_lt e he).1
  rcases lastId_cases s.received with hzero | ⟨last, hlast, hlastId⟩
  · have : s.lastEventId = 0 := hzero
    omega
  -- The cursor is at or behind the last event on the wire, so `e` has been sent.
  have hid : e.id ≤ last.id := hlastId ▸ hid
  obtain ⟨-, -, hbefore⟩ := List.pairwise_append.mp h.increasing
  have hcursor : last.id ≤ s.cursor := by
    rw [h.cursor_eq]
    exact le_lastId h.increasing (List.mem_append_left _ hlast)
  rcases List.mem_append.mp (h.covered e he hTask (hid.trans hcursor)) with hread | hwire
  · exact hread
  · have := hbefore last hlast e hwire
    omega

/-- The invariant gives the promise. -/
theorem complete (h : Streaming taskId s) : Complete taskId s where
  sent e he hTask hid :=
    List.count_eq_one_of_mem (h.increasing.imp fun hab heq => absurd (heq ▸ hab) (lt_irrefl _))
      (h.covered e he hTask hid)
  read _ he hTask hid :=
    List.count_eq_one_of_mem
      ((List.pairwise_append.mp h.increasing).1.imp fun hab heq => absurd (heq ▸ hab) (lt_irrefl _))
      (h.mem_received he hTask hid)
  increasing := h.increasing

/-- The cursor is below whatever a write in order makes visible. -/
theorem cursor_lt (h : Streaming taskId s) {w : Write} (hw : CommitsInOrder taskId s.table w)
    {e : TaskEvent} (he : e ∈ (s.table.write w).visible) (hnew : e ∉ s.table.visible)
    (hTask : e.taskId = taskId) : s.cursor < e.id := by
  rw [h.cursor_eq]
  rcases lastId_cases s.delivered with hzero | ⟨last, hlast, hid⟩
  · rw [hzero]
    exact ((h.wf.write w).visible_lt e he).1
  · obtain ⟨hvisible, hTask'⟩ := h.genuine last hlast
    rw [← hid]
    exact hw.fresh he hnew hTask hvisible hTask'

/-- A write in order keeps the invariant. -/
theorem write (h : Streaming taskId s) {w : Write} (hw : CommitsInOrder taskId s.table w) :
    Streaming taskId { s with table := s.table.write w } where
  wf := h.wf.write w
  genuine e he := ⟨EventTable.visible_write (h.genuine e he).1, (h.genuine e he).2⟩
  increasing := h.increasing
  cursor_eq := h.cursor_eq
  covered e he hTask hid := by
    by_cases hold : e ∈ s.table.visible
    · exact h.covered e hold hTask hid
    · exact absurd hid (not_le.mpr (h.cursor_lt hw he hold hTask))
  batch c events hc hphase := by
    obtain ⟨hrows, hincreasing, hgapless⟩ := h.batch c events hc hphase
    refine ⟨fun e he => ⟨EventTable.visible_write (hrows e he).1, (hrows e he).2⟩, hincreasing, ?_⟩
    intro e he hTask hcursor
    by_cases hold : e ∈ s.table.visible
    · exact hgapless e hold hTask hcursor
    · exact .inr fun e' he' => hw.fresh he hold hTask (hrows e' he').1 (hrows e' he').2.1

/-- A move that delivers nothing and leaves the cursor keeps the invariant, when the rows it starts
to send are those of a poll. -/
theorem quiet (h : Streaming taskId s) (htable : s'.table = s.table)
    (hdelivered : s'.delivered = s.delivered) (hcursor : s'.cursor = s.cursor)
    (hbatch : ∀ c events, s'.connection = some c → c.phase = .sending events →
      Fetched taskId s.table c.cursor events) : Streaming taskId s' where
  wf := htable ▸ h.wf
  genuine := by rw [htable, hdelivered]; exact h.genuine
  increasing := by rw [hdelivered]; exact h.increasing
  cursor_eq := by rw [hcursor, hdelivered]; exact h.cursor_eq
  covered := by rw [htable, hdelivered, hcursor]; exact h.covered
  batch := by rw [htable]; exact hbatch

/-- A connection that ends loses what is on the wire, and the next one starts before it. -/
theorem disconnect (h : Streaming taskId s) :
    Streaming taskId { s with connection := none } where
  wf := h.wf
  genuine e he := h.genuine e (by
    rw [EventSystem.delivered, EventSystem.onWire] at he
    exact List.mem_append_left _ (by simpa using he))
  increasing := by
    have hreceived := (List.pairwise_append.mp h.increasing).1
    rw [EventSystem.delivered, EventSystem.onWire]
    simpa using hreceived
  cursor_eq := by
    rw [EventSystem.delivered, EventSystem.onWire]
    simp [EventSystem.cursor, EventSystem.lastEventId, lastId]
  covered e he hTask hid := List.mem_append_left _ (h.mem_received he hTask hid)
  batch c events hc := by simp at hc

/-- The next row is sent: it is the first one of the Task above the cursor. -/
theorem send (h : Streaming taskId s) {c : Connection} {e : TaskEvent} {rest : List TaskEvent}
    {phase : StreamPhase} (hc : s.connection = some c) (hphase : c.phase = .sending (e :: rest))
    (hnext : phase = .sending rest ∨ phase = .polling) :
    Streaming taskId { s with connection := some ⟨e.id, phase, c.wire ++ [.event e]⟩ } := by
  obtain ⟨hrows, hincreasing, hgapless⟩ := h.batch c _ hc hphase
  obtain ⟨hfirst, hrest⟩ := List.pairwise_cons.mp hincreasing
  obtain ⟨hvisible, hTask, hbelow⟩ := hrows e (by simp)
  set s' : EventSystem := { s with connection := some ⟨e.id, phase, c.wire ++ [.event e]⟩ } with hs'
  have hdelivered : s'.delivered = s.delivered ++ [e] := by
    simp [hs', EventSystem.delivered, EventSystem.onWire, hc, Chunk.event?]
  have hcursor : s.cursor = c.cursor := by simp [EventSystem.cursor, hc]
  have hbefore : ∀ d ∈ s.delivered, d.id ≤ c.cursor := by
    intro d hd
    rw [← hcursor, h.cursor_eq]
    exact le_lastId h.increasing hd
  refine ⟨h.wf, ?_, ?_, ?_, ?_, ?_⟩
  · rw [hdelivered]
    intro d hd
    rcases List.mem_append.mp hd with hd | hd
    · exact h.genuine d hd
    · rw [List.mem_singleton.mp hd]
      exact ⟨hvisible, hTask⟩
  · rw [hdelivered]
    refine List.pairwise_append.mpr ⟨h.increasing, List.pairwise_singleton _ _, ?_⟩
    intro d hd e' he'
    rw [List.mem_singleton.mp he']
    exact lt_of_le_of_lt (hbefore d hd) hbelow
  · rw [hdelivered, lastId_concat]
    rfl
  · intro d hd hdTask hid
    rw [hdelivered]
    rcases le_or_gt d.id c.cursor with hold | hold
    · exact List.mem_append_left _ (h.covered d hd hdTask (hcursor ▸ hold))
    -- Between the old cursor and `e` there is no other row.
    rcases hgapless d hd hdTask hold with hmem | habove
    · rcases List.mem_cons.mp hmem with rfl | hmem
      · simp
      · exact absurd hid (not_le.mpr (hfirst d hmem))
    · exact absurd hid (not_le.mpr (habove e (by simp)))
  · intro c' events hc' hphase'
    obtain rfl : (⟨e.id, phase, c.wire ++ [.event e]⟩ : Connection) = c' := by simpa [hs'] using hc'
    rcases hnext with rfl | rfl
    · obtain rfl : rest = events := by simpa using hphase'
      refine ⟨fun d hd => ?_, hrest, fun d hd hdTask hcut => ?_⟩
      · obtain ⟨hdvisible, hdTask, -⟩ := hrows d (List.mem_cons_of_mem _ hd)
        exact ⟨hdvisible, hdTask, hfirst d hd⟩
      · rcases hgapless d hd hdTask (hbelow.trans hcut) with hmem | habove
        · rcases List.mem_cons.mp hmem with rfl | hmem
          · exact absurd hcut (lt_irrefl _)
          · exact .inl hmem
        · exact .inr fun e' he' => habove e' (List.mem_cons_of_mem _ he')
    · simp at hphase'

/-- The client reads the next chunk. -/
theorem receive (h : Streaming taskId s) {c : Connection} {chunk : Chunk} {wire : List Chunk}
    (hc : s.connection = some c) (hwire : c.wire = chunk :: wire) :
    Streaming taskId { s with
      connection := some { c with wire }
      received := s.received ++ chunk.event?.toList } := by
  refine h.quiet rfl ?_ (by simp [EventSystem.cursor, hc]) ?_
  · cases chunk with
    | event e => simp [EventSystem.delivered, EventSystem.onWire, hc, hwire, Chunk.event?]
    | keepalive =>
      simp [EventSystem.delivered, EventSystem.onWire, hc, hwire, Chunk.event?, List.filterMap_cons]
  · intro c' events hc' hphase
    obtain rfl : { c with wire } = c' := by simpa using hc'
    exact h.batch c events hc hphase

/-- A move of the client keeps the invariant. -/
theorem move (h : Streaming taskId s) {m : ClientMove} (hm : s.move taskId m = some s') :
    Streaming taskId s' := by
  cases m with
  | connect =>
    simp only [EventSystem.move] at hm
    split at hm
    · rename_i hnone
      obtain rfl := Option.some.inj hm
      refine h.quiet rfl ?_ ?_ ?_
      · simp [EventSystem.delivered, EventSystem.onWire, hnone]
      · simp [EventSystem.cursor, hnone, EventSystem.lastEventId]
      · intro c events hc hphase
        obtain rfl := Option.some.inj hc
        simp at hphase
    · simp at hm
  | poll =>
    -- What is polled is fetched behind the cursor, and nothing is delivered by it.
    obtain ⟨c', hc', rfl⟩ := Option.map_eq_some_iff.mp hm
    obtain ⟨c, hc, hpoll⟩ := Option.bind_eq_some_iff.mp hc'
    obtain ⟨hcursor, hwire, hphase⟩ := Connection.poll_spec hpoll
    refine h.quiet rfl ?_ (by simp [EventSystem.cursor, hc, hcursor]) ?_
    · simp [EventSystem.delivered, EventSystem.onWire, hc, hwire]
    · intro c'' events hc'' hsending
      obtain rfl := Option.some.inj hc''
      rw [hphase events hsending, hcursor]
      exact fetched_eventsAfter h.wf taskId c.cursor 100
  | send =>
    obtain ⟨c', hc', rfl⟩ := Option.map_eq_some_iff.mp hm
    obtain ⟨c, hc, hsend⟩ := Option.bind_eq_some_iff.mp hc'
    obtain ⟨e, rest, phase, hphase, hnext, rfl⟩ := Connection.send_spec hsend
    exact h.send hc hphase hnext
  | wake notified =>
    obtain ⟨c', hc', rfl⟩ := Option.map_eq_some_iff.mp hm
    obtain ⟨c, hc, hwake⟩ := Option.bind_eq_some_iff.mp hc'
    obtain ⟨wire, hwire, rfl⟩ := Connection.wake_spec hwake
    refine h.quiet rfl ?_ (by simp [EventSystem.cursor, hc]) ?_
    · simp [EventSystem.delivered, EventSystem.onWire, hc, hwire]
    · intro c'' events hc'' hsending
      obtain rfl := Option.some.inj hc''
      simp at hsending
  | receive =>
    obtain ⟨c, hc, hreceive⟩ := Option.bind_eq_some_iff.mp hm
    split at hreceive
    · simp at hreceive
    · rename_i chunk wire hwire
      obtain rfl := Option.some.inj hreceive
      exact h.receive hc hwire
  | disconnect =>
    obtain rfl := Option.some.inj hm
    exact h.disconnect

end Streaming

/-! ## Runs and their writes -/

section Runs

variable {taskId : Uuid} {s s' : EventSystem}

/-- The writes of a run, in their order. -/
def writesOf (actions : List EventAction) : List Write := actions.filterMap EventAction.write?

/-- A move of the client leaves the table. -/
theorem EventSystem.move_table {m : ClientMove} (hm : s.move taskId m = some s') :
    s'.table = s.table := by
  cases m with
  | connect =>
    simp only [EventSystem.move] at hm
    split at hm
    · rw [← Option.some.inj hm]
    · simp at hm
  | poll | send | wake notified =>
    obtain ⟨c, -, rfl⟩ := Option.map_eq_some_iff.mp hm
    rfl
  | receive =>
    obtain ⟨c, -, hreceive⟩ := Option.bind_eq_some_iff.mp hm
    split at hreceive
    · simp at hreceive
    · rw [← Option.some.inj hreceive]
  | disconnect => rw [← Option.some.inj hm]

/-- The table at the end of a run is the table after its writes. -/
theorem run_table {actions : List EventAction}
    (h : (taskEvents taskId).run s actions = some s') :
    s'.table = s.table.writes (writesOf actions) := by
  induction actions generalizing s with
  | nil =>
    obtain rfl : s = s' := by simpa [Machine.run] using h
    rfl
  | cons a actions ih =>
    obtain ⟨t, ht, h⟩ := Option.bind_eq_some_iff.mp h
    rw [ih h]
    cases a with
    | write w =>
      obtain rfl := Option.some.inj ht
      rfl
    | client m => rw [EventSystem.move_table ht]; rfl

/-- A later part of a schedule in order. -/
theorem InIdOrder.head {before ws : List Write} {w : Write}
    (h : InIdOrder taskId (before ++ w :: ws)) :
    CommitsInOrder taskId (EventTable.writes {} before) w :=
  h before w ws rfl

/-- Under a schedule in order, what becomes visible later is above what is visible. -/
theorem InIdOrder.above {before ws : List Write} (h : InIdOrder taskId (before ++ ws))
    {e e' : TaskEvent} (he : e ∈ (EventTable.writes {} (before ++ ws)).visible)
    (hTask : e.taskId = taskId) (hnew : e ∉ (EventTable.writes {} before).visible)
    (he' : e' ∈ (EventTable.writes {} before).visible) (hTask' : e'.taskId = taskId) :
    e'.id < e.id := by
  induction ws generalizing before with
  | nil => exact absurd (by simpa using he) hnew
  | cons w ws ih =>
    have hstep : EventTable.writes {} (before ++ [w]) = (EventTable.writes {} before).write w := by
      simp [EventTable.writes, List.foldl_append]
    rw [List.append_cons] at he
    by_cases hnow : e ∈ (EventTable.writes {} (before ++ [w])).visible
    · rw [hstep] at hnow
      exact h.head.fresh hnow hnew hTask he' hTask'
    · refine ih (by rwa [← List.append_cons]) he hnow ?_
      rw [hstep]
      exact EventTable.visible_write he'

/-- A run under a schedule in order keeps the invariant. -/
theorem Streaming.run {before : List Write} {actions : List EventAction}
    (hs : Streaming taskId s) (htable : s.table = EventTable.writes {} before)
    (horder : InIdOrder taskId (before ++ writesOf actions))
    (h : (taskEvents taskId).run s actions = some s') : Streaming taskId s' := by
  induction actions generalizing s before with
  | nil =>
    obtain rfl : s = s' := by simpa [Machine.run] using h
    exact hs
  | cons a actions ih =>
    obtain ⟨t, ht, hrun⟩ := Option.bind_eq_some_iff.mp h
    cases a with
    | write w =>
      obtain rfl := Option.some.inj ht
      have horder : InIdOrder taskId (before ++ w :: writesOf actions) := horder
      refine ih (hs.write (htable ▸ horder.head)) ?_ (List.append_cons .. ▸ horder) hrun
      show s.table.write w = _
      rw [htable, EventTable.writes, EventTable.writes, List.foldl_append]
      rfl
    | client m => exact ih (hs.move ht) ((EventSystem.move_table ht).trans htable) horder hrun

/-- The system starts with nothing sent and nothing to send. -/
theorem streaming_initial (taskId : Uuid) : Streaming taskId {} where
  wf := EventTable.wf_empty
  genuine := by simp [EventSystem.delivered, EventSystem.onWire]
  increasing := by simp [EventSystem.delivered, EventSystem.onWire]
  cursor_eq := rfl
  covered := by simp
  batch := by simp

/-- Under a schedule in order, the client is promised everything, whatever it does. -/
theorem InIdOrder.recovers {actions : List EventAction}
    (horder : InIdOrder taskId (writesOf actions)) : Recovers taskId actions := by
  rintro before between after s s' rfl hs hs'
  have hsplit : writesOf (before ++ between ++ after) =
      writesOf before ++ writesOf between ++ writesOf after := by
    simp [writesOf]
  have hprefix : InIdOrder taskId (writesOf before ++ writesOf between) := by
    rintro ws w ws' hws
    refine horder ws w (ws' ++ writesOf after) ?_
    rw [hsplit, hws]
    simp
  have hbefore : InIdOrder taskId (writesOf before) := by
    rintro ws w ws' hws
    refine hprefix ws w (ws' ++ writesOf between) ?_
    rw [hws]
    simp
  have hempty : ({} : EventSystem).table = EventTable.writes {} [] := rfl
  have hstreaming : Streaming taskId s := (streaming_initial taskId).run hempty hbefore hs
  have htable : s.table = EventTable.writes {} (writesOf before) := run_table hs
  have htable' : s'.table = EventTable.writes {} (writesOf before ++ writesOf between) := by
    rw [run_table hs', htable, EventTable.writes, EventTable.writes, EventTable.writes,
      List.foldl_append]
  refine ⟨hstreaming.complete, fun e he hTask hnew => ?_⟩
  rw [htable'] at he
  rw [hstreaming.cursor_eq]
  rcases lastId_cases s.delivered with hzero | ⟨last, hlast, hid⟩
  · rw [hzero]
    exact ((EventTable.wf_empty.writes _).visible_lt e he).1
  · obtain ⟨hvisible, hTask'⟩ := hstreaming.genuine last hlast
    rw [← hid]
    exact hprefix.above he hTask (htable ▸ hnew) (htable ▸ hvisible) hTask'

/-! ## A client that catches up -/

/-- A connection that has rows to send sends all of them. -/
theorem run_sends {c : Connection} {e : TaskEvent} {events : List TaskEvent}
    (hc : s.connection = some c) (hphase : c.phase = .sending (e :: events)) :
    ∃ s', (taskEvents taskId).run s (List.replicate (events.length + 1) (.client .send)) = some s' ∧
      s'.table = s.table ∧
      ∃ wire, s'.connection = some ⟨lastId (e :: events), .polling, wire⟩ := by
  induction events generalizing s c e with
  | nil =>
    refine ⟨{ s with connection := some ⟨e.id, .polling, c.wire ++ [.event e]⟩ }, ?_, rfl, _, rfl⟩
    simp [Machine.run, taskEvents, EventSystem.move, hc, Connection.send, hphase]
  | cons e' events ih =>
    set c' : Connection := ⟨e.id, .sending (e' :: events), c.wire ++ [.event e]⟩ with hc'
    obtain ⟨s', hrun, htable, wire, hs'⟩ :=
      ih (s := { s with connection := some c' }) (c := c') (e := e') rfl rfl
    refine ⟨s', ?_, htable, wire, ?_⟩
    · rw [List.length_cons, List.replicate_succ]
      refine Option.bind_eq_some_iff.mpr ⟨_, ?_, hrun⟩
      simp [taskEvents, EventSystem.move, hc, Connection.send, hphase, hc']
    · rw [hs']
      simp [lastId]

/-- The number of rows of the Task above a cursor. -/
def ahead (t : EventTable) (taskId : Uuid) (cursor : ℕ) : ℕ :=
  (t.visible.filter fun e => e.taskId = taskId ∧ cursor < e.id).length

/-- A cursor that moves past a row has fewer rows ahead. -/
theorem ahead_lt {t : EventTable} {cursor cursor' : ℕ} {e : TaskEvent} (he : e ∈ t.visible)
    (hTask : e.taskId = taskId) (hcursor : cursor < e.id) (hcursor' : e.id ≤ cursor') :
    ahead t taskId cursor' < ahead t taskId cursor := by
  have hsub : (t.visible.filter fun e => e.taskId = taskId ∧ cursor' < e.id) =
      (t.visible.filter fun e => e.taskId = taskId ∧ cursor < e.id).filter
        fun e => cursor' < e.id := by
    rw [List.filter_filter]
    refine List.filter_congr fun d _ => ?_
    rw [← Bool.decide_and]
    refine decide_eq_decide.mpr ⟨?_, ?_⟩
    · rintro ⟨hd, hlt⟩
      exact ⟨hlt, hd, by omega⟩
    · rintro ⟨hlt, hd, -⟩
      exact ⟨hd, hlt⟩
  rw [ahead, hsub, ahead]
  refine List.length_filter_lt_length_iff_exists.mpr ⟨e, ?_, ?_⟩
  · exact List.mem_filter.mpr ⟨he, decide_eq_true ⟨hTask, hcursor⟩⟩
  · simpa using hcursor'

/-- A connection that polls again and again passes every visible event of its Task. -/
theorem run_catches_up {c : Connection} {e : TaskEvent} (hwf : s.table.Wf)
    (hc : s.connection = some c) (hphase : c.phase = .polling) (he : e ∈ s.table.visible)
    (hTask : e.taskId = taskId) :
    ∃ actions s', writesOf actions = [] ∧ (taskEvents taskId).run s actions = some s' ∧
      s'.table = s.table ∧ e.id ≤ s'.cursor := by
  -- Every poll that finds a row moves the cursor past at least one.
  induction hn : ahead s.table taskId c.cursor using Nat.strong_induction_on generalizing s c with
  | _ n ih =>
  rcases le_or_gt e.id c.cursor with hid | hid
  · exact ⟨[], s, rfl, rfl, rfl, by simpa [EventSystem.cursor, hc] using hid⟩
  obtain ⟨first, rest, hpoll⟩ := List.exists_cons_of_ne_nil (eventsAfter_ne_nil he hTask hid)
  have hfetched := fetched_eventsAfter hwf taskId c.cursor 100
  rw [hpoll] at hfetched
  obtain ⟨hvisible, hfirstTask, hfirst⟩ := hfetched.rows first (by simp)
  set polled : EventSystem :=
    { s with connection := some { c with phase := .sending (first :: rest) } } with hpolled
  have hstep : (taskEvents taskId).step s (.client .poll) = some polled := by
    simp [taskEvents, EventSystem.move, hc, Connection.poll, hphase, hpoll, hpolled]
  obtain ⟨s₁, hsends, htable, wire, hs₁⟩ := @run_sends taskId polled _ first rest rfl rfl
  have hmoved : first.id ≤ lastId (first :: rest) := le_lastId hfetched.increasing (by simp)
  have htable : s₁.table = s.table := htable
  obtain ⟨actions, s', hwrites, hrun, hs', hcursor⟩ :=
    ih _ (hn ▸ ahead_lt hvisible hfirstTask hfirst hmoved) (htable ▸ hwf) hs₁ rfl (htable ▸ he)
      (by rw [htable])
  refine ⟨.client .poll :: (List.replicate (rest.length + 1) (.client .send) ++ actions), s', ?_,
    ?_, hs'.trans htable, hcursor⟩
  · simpa [writesOf, EventAction.write?] using hwrites
  · refine Option.bind_eq_some_iff.mpr ⟨polled, hstep, ?_⟩
    rw [Machine.run_append, hsends]
    exact hrun

/-- A run of writes. -/
theorem run_writes (s : EventSystem) (ws : List Write) :
    (taskEvents taskId).run s (ws.map .write) = some { s with table := s.table.writes ws } := by
  induction ws generalizing s with
  | nil => rfl
  | cons w ws ih => exact ih { s with table := s.table.write w }

/-! ## The theorem -/

/-- A schedule of the writers keeps the promise of the stream, whatever the client and its
connections do, exactly when its transactions commit the events of the Task in the order of their
ids. -/
theorem task_events_complete_iff (taskId : Uuid) (ws : List Write) :
    (∀ actions, writesOf actions = ws → Recovers taskId actions) ↔ InIdOrder taskId ws := by
  refine ⟨fun hall => ?_, fun horder actions hws => InIdOrder.recovers (hws ▸ horder)⟩
  rintro before w after rfl
  by_contra hbad
  -- Only a commit can be out of order: of a row `e` below a visible row `e'`.
  obtain ⟨n, rfl⟩ : ∃ n, w = .commit n := by
    cases w with
    | commit n => exact ⟨n, rfl⟩
    | insert | rollback => exact absurd trivial hbad
  simp only [CommitsInOrder, not_forall, not_lt] at hbad
  obtain ⟨e, he, hTask, e', he', hTask', hid⟩ := hbad
  set t := EventTable.writes {} before with ht
  have hwf : t.Wf := EventTable.wf_empty.writes before
  -- A client that connects just before the commit gets past `e'`.
  set connected : EventSystem := { table := t, connection := some ⟨0, .polling, []⟩ }
  obtain ⟨actions, s, hnone, hrun, htable, hcursor⟩ :=
    @run_catches_up taskId connected _ e' hwf rfl rfl he' hTask'
  have hs : (taskEvents taskId).run {} (before.map .write ++ .client .connect :: actions) =
      some s := by
    rw [Machine.run_append, run_writes]
    exact hrun
  have hlate := (hall (before.map .write ++ .client .connect :: actions ++ [.write (.commit n)] ++
    after.map .write) ?_ _ _ _ s { s with table := s.table.write (.commit n) } rfl hs rfl).2
  · have hnew : e ∉ s.table.visible := by
      intro hseen
      rw [htable] at hseen
      exact hwf.unseen n e he e hseen rfl
    have hvisible : e ∈ (s.table.write (.commit n)).visible := by
      rw [htable]
      exact List.mem_append_right _ he
    have := hlate e hvisible hTask hnew
    omega
  · have hwrites : ∀ ws : List Write, writesOf (ws.map .write) = ws := by
      intro ws
      simp [writesOf, List.filterMap_map, Function.comp_def, EventAction.write?]
    have hclient : writesOf (.client .connect :: actions) = [] := hnone
    simp only [writesOf, List.filterMap_append] at hwrites hclient ⊢
    rw [hwrites, hwrites, hclient]
    simp [EventAction.write?]

/-- Two transactions insert an event each, the second one commits, the client is sent its event, and
the first one commits. -/
def overtaken : List EventAction :=
  [.write (.insert 1 7 "workflow.version_created" ⟨[], Dict.sorted_nil⟩),
    .write (.insert 2 7 "workflow.promoted" ⟨[], Dict.sorted_nil⟩),
    .write (.commit 2), .client .connect, .client .poll, .client .send, .write (.commit 1)]

/-- Not every run keeps the promise: the event that commits last has been passed. -/
theorem not_recovers : ¬ ∀ taskId actions, Recovers taskId actions := by
  intro hall
  have h := (hall 7 overtaken overtaken [] [] _ _ rfl rfl rfl).1.sent
    ⟨1, 7, "workflow.version_created", ⟨[], Dict.sorted_nil⟩⟩
  exact absurd (h (by decide) (by decide) (by decide)) (by decide)

end Runs

end ExAgent.Api
