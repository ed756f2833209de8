import ExAgent.Api.Tasks
import ExAgent.Graph.Guarantees
import ExAgent.Stores.Commits

/-!
# Two users of the admission path

Two users send commands for sessions, Tasks and messages of their own, and the agent works on their
sessions in between. Does one of them notice the other? Everything the admission path looks up is
looked up by an id of the session, the Task or the message, with one exception: the row of the
request, whose id is made from the idempotency key alone. So the answers and the rows of each user
are those of a run without the other user whenever no request id is used by both
(`admission_isolated`); two users who choose the same key do interfere (`not_unaffected`).
-/

namespace ExAgent.Api

open Lib
open ExAgent.Graph (TaskTurn)
open Session (ApiRequest ApiInput)
open Stores (Db Row RowKey RequestRow TaskRow MessageRow)

/-! ## What a user sees -/

/-- The sessions, Tasks, messages and requests of a user. -/
structure Region where
  sessions : Uuid → Prop
  tasks : Uuid → Prop
  messages : Uuid → Prop
  requests : Uuid → Prop

/-- The Task of an event. -/
def eventTask : Stores.TaskEvent → Uuid
  | .accepted taskId _ | .statusChanged taskId _ _ | .projected taskId _ _ => taskId
  | .interrupted taskId _ | .completed taskId _ _ => taskId
  | .failureCleanupPending taskId _ _ | .failureCleanupOperatorRequested taskId _ _ _ => taskId

/-- Two databases in which a user finds the same. -/
structure DbAgree (G : Region) (db db' : Db) : Prop where
  /-- The Tasks of the user. -/
  tasks : ∀ id, G.tasks id → db.tasks.get id = db'.tasks.get id
  /-- Whether a Task of a session is not finished. -/
  unfinished : ∀ id, G.sessions id →
    Stores.RequestStore.unfinished? db id = Stores.RequestStore.unfinished? db' id
  /-- The locks of the sessions. -/
  locks : ∀ id, G.sessions id → db.locks.get id = db'.locks.get id
  /-- The requests of the user. -/
  requests : ∀ id, G.requests id → db.requests.get id = db'.requests.get id
  /-- The active request of a session. -/
  active : ∀ id, G.sessions id → db.activeRequest? id = db'.activeRequest? id
  /-- The cleanups of the Tasks. -/
  cleanups : ∀ id, G.tasks id → db.cleanups.get id = db'.cleanups.get id
  /-- The bindings of the Tasks. -/
  bindings : ∀ id, G.tasks id → db.bindings.get id = db'.bindings.get id
  /-- Which message ids are taken. -/
  taken : ∀ id, G.messages id →
    (db.messages.any fun m => m.id = some id) = db'.messages.any fun m => m.id = some id
  /-- The messages of the Tasks. -/
  messages : ∀ id, G.tasks id →
    db.messages.filter (fun m => m.taskId = id) = db'.messages.filter fun m => m.taskId = id
  /-- The events of the Tasks. -/
  events : ∀ id, G.tasks id →
    db.events.filter (fun e => eventTask e = id) = db'.events.filter fun e => eventTask e = id

/-- The same for the checkpoints of the sessions too. -/
structure Agree (G : Region) (w w' : World) : Prop where
  db : DbAgree G w.db w'.db
  threads : ∀ id, G.sessions id → w.threads id = w'.threads id

/-- The rows of a user. -/
def Region.mine (G : Region) : RowKey → Prop
  | .task id | .cleanup id | .binding id => G.tasks id
  | .lock id => G.sessions id
  | .request id => G.requests id

section Agree

variable {G : Region} {db db' db'' : Db}

/-- A database agrees with itself. -/
theorem DbAgree.refl (G : Region) (db : Db) : DbAgree G db db :=
  ⟨fun _ _ => rfl, fun _ _ => rfl, fun _ _ => rfl, fun _ _ => rfl, fun _ _ => rfl, fun _ _ => rfl,
    fun _ _ => rfl, fun _ _ => rfl, fun _ _ => rfl, fun _ _ => rfl⟩

/-- Agreement on a region is symmetric. -/
theorem DbAgree.symm (h : DbAgree G db db') : DbAgree G db' db where
  tasks id hid := (h.tasks id hid).symm
  unfinished id hid := (h.unfinished id hid).symm
  locks id hid := (h.locks id hid).symm
  requests id hid := (h.requests id hid).symm
  active id hid := (h.active id hid).symm
  cleanups id hid := (h.cleanups id hid).symm
  bindings id hid := (h.bindings id hid).symm
  taken id hid := (h.taken id hid).symm
  messages id hid := (h.messages id hid).symm
  events id hid := (h.events id hid).symm

/-- Agreement on a region is transitive. -/
theorem DbAgree.trans (h : DbAgree G db db') (h' : DbAgree G db' db'') : DbAgree G db db'' where
  tasks id hid := (h.tasks id hid).trans (h'.tasks id hid)
  unfinished id hid := (h.unfinished id hid).trans (h'.unfinished id hid)
  locks id hid := (h.locks id hid).trans (h'.locks id hid)
  requests id hid := (h.requests id hid).trans (h'.requests id hid)
  active id hid := (h.active id hid).trans (h'.active id hid)
  cleanups id hid := (h.cleanups id hid).trans (h'.cleanups id hid)
  bindings id hid := (h.bindings id hid).trans (h'.bindings id hid)
  taken id hid := (h.taken id hid).trans (h'.taken id hid)
  messages id hid := (h.messages id hid).trans (h'.messages id hid)
  events id hid := (h.events id hid).trans (h'.events id hid)

/-- The rows of a user are the same when the user finds the same. -/
theorem DbAgree.row (h : DbAgree G db db') {k : RowKey} (hk : G.mine k) : db.row k = db'.row k := by
  cases k with
  | task id => exact congrArg (Option.map Row.task) (h.tasks id hk)
  | lock id => exact congrArg (Option.map Row.lock) (h.locks id hk)
  | request id => exact congrArg (Option.map Row.request) (h.requests id hk)
  | cleanup id => exact congrArg (Option.map Row.cleanup) (h.cleanups id hk)
  | binding id => exact congrArg (Option.map Row.binding) (h.bindings id hk)

end Agree

/-! ## What the inserts of a request change -/

section Inserts

variable {G : Region} {db db' : Db}

/-- A write does the same where the user finds the same. -/
def RespectedBy (G : Region) (write : Db → Option Db) : Prop :=
  ∀ db db', DbAgree G db db' → (write db = none → write db' = none) ∧
    ∀ t, write db = some t → ∃ t', write db' = some t' ∧ DbAgree G t t'

/-- The user does not see a write. -/
def HiddenFrom (G : Region) (write : Db → Option Db) : Prop :=
  ∀ db t, write db = some t → DbAgree G db t

/-- Two writes that respect a region respect it one after the other. -/
theorem RespectedBy.bind {f g : Db → Option Db} (hf : RespectedBy G f) (hg : RespectedBy G g) :
    RespectedBy G fun db => (f db).bind g := by
  intro db db' h
  obtain ⟨hnone, hsome⟩ := hf db db' h
  dsimp only
  cases hfdb : f db with
  | none => simp [hnone hfdb]
  | some t =>
    obtain ⟨t', ht', hagree⟩ := hsome t hfdb
    rw [ht']
    exact hg t t' hagree

/-- Two writes that a user does not see are not seen one after the other. -/
theorem HiddenFrom.bind {f g : Db → Option Db} (hf : HiddenFrom G f) (hg : HiddenFrom G g) :
    HiddenFrom G fun db => (f db).bind g := by
  intro db t h
  obtain ⟨u, hu, ht⟩ := Option.bind_eq_some_iff.mp h
  exact (hf db u hu).trans (hg u t ht)

/-- Nothing is written. -/
theorem respectedBy_some : RespectedBy G some := by
  intro db db' h
  refine ⟨by simp, fun t ht => ⟨db', rfl, ?_⟩⟩
  rwa [← Option.some.inj ht]

/-- A write that changes nothing is not seen. -/
theorem hiddenFrom_some : HiddenFrom G some := by
  intro db t ht
  rw [← Option.some.inj ht]
  exact .refl G db

/-- The first unfinished Task of a session after a Task was inserted. -/
theorem unfinished_insertTask {id : Uuid} {task : TaskRow} (h : db.insertTask id task = some db')
    (sessionId : Uuid) : Stores.RequestStore.unfinished? db' sessionId =
      (Stores.RequestStore.unfinished? db sessionId).or
        (if task.sessionId = sessionId ∧ task.status.isTerminal =
          false then some id else none) := by
  obtain ⟨tasks, hinsert, rfl⟩ := Option.map_eq_some_iff.mp h
  unfold Stores.RequestStore.unfinished?
  rw [Table.entries_of_insert hinsert, List.find?_append, Option.map_or]
  congr 1
  by_cases hs : task.sessionId = sessionId <;> cases hterminal : task.status.isTerminal <;>
    simp [hs, hterminal]

/-- The active request of a session after a request was inserted. -/
theorem active_insertRequest {id : Uuid} {row : RequestRow}
    (h : db.insertRequest id row = some db') (sessionId : Uuid) :
    db'.activeRequest? sessionId = (db.activeRequest? sessionId).or
      (if row.sessionId = sessionId ∧ row.state.isActive = true then some row else none) := by
  unfold Db.insertRequest at h
  split at h
  · cases h
  obtain ⟨requests, hinsert, rfl⟩ := Option.map_eq_some_iff.mp h
  unfold Db.activeRequest?
  rw [Table.entries_of_insert hinsert, List.find?_append, Option.map_or]
  congr 1
  by_cases hs : row.sessionId = sessionId <;> cases hactive : row.state.isActive <;>
    simp [hs, hactive]

/-- A Task of the user. -/
theorem respectedBy_insertTask {id : Uuid} {task : TaskRow} (hid : G.tasks id) :
    RespectedBy G fun db => db.insertTask id task := by
  intro db db' h
  have hget := h.tasks id hid
  refine ⟨fun hnone => ?_, fun t ht => ?_⟩
  · cases hrow : db.tasks.get id with
    | none =>
      obtain ⟨tasks, hinsert⟩ := Table.insert_of_get_none hrow task
      simp [Db.insertTask, hinsert] at hnone
    | some row => simp [Db.insertTask, Table.insert_of_get_some (hget ▸ hrow)]
  · obtain ⟨hnone, hrows, heq⟩ := Db.insertTask_spec ht
    obtain ⟨tasks, hinsert⟩ := Table.insert_of_get_none (hget ▸ hnone) task
    have ht' : db'.insertTask id task = some { db' with tasks } := by
      simp [Db.insertTask, hinsert]
    obtain ⟨-, hrows', -⟩ := Db.insertTask_spec ht'
    refine ⟨_, ht', ?_⟩
    constructor
    · intro k hk
      rw [hrows, hrows', h.tasks k hk]
    · intro k hk
      rw [unfinished_insertTask ht, unfinished_insertTask ht', h.unfinished k hk]
    · rw [heq]; exact h.locks
    · rw [heq]; exact h.requests
    · rw [heq]; exact h.active
    · rw [heq]; exact h.cleanups
    · rw [heq]; exact h.bindings
    · rw [heq]; exact h.taken
    · rw [heq]; exact h.messages
    · rw [heq]; exact h.events

/-- A Task of someone else. -/
theorem hiddenFrom_insertTask {id : Uuid} {task : TaskRow} (hid : ¬ G.tasks id)
    (hsession : ¬ G.sessions task.sessionId) : HiddenFrom G fun db => db.insertTask id task := by
  intro db t ht
  obtain ⟨-, hrows, heq⟩ := Db.insertTask_spec ht
  constructor
  · intro k hk
    have hne : k ≠ id := fun hkid => hid (hkid ▸ hk)
    rw [hrows, if_neg hne]
  · intro k hk
    have hne : task.sessionId ≠ k := fun hkid => hsession (hkid ▸ hk)
    rw [unfinished_insertTask ht, if_neg (fun hand => hne hand.1), Option.or_none]
  all_goals rw [heq]; intro _ _; rfl

/-- A message of the user. -/
theorem respectedBy_insertMessage {id : Uuid} {message : MessageRow} (hid : G.messages id) :
    RespectedBy G fun db => db.insertMessage id message := by
  intro db db' h
  have htaken := h.taken id hid
  refine ⟨fun hnone => ?_, fun t ht => ?_⟩
  · simp only [Db.insertMessage] at hnone ⊢
    rw [← htaken]
    split at hnone
    · rename_i hany
      rw [if_pos hany]
    · cases hnone
  · simp only [Db.insertMessage] at ht ⊢
    rw [← htaken]
    split at ht
    · cases ht
    · rename_i hany
      obtain rfl := Option.some.inj ht
      refine ⟨_, if_neg hany, h.tasks, h.unfinished, h.locks, h.requests, h.active, h.cleanups,
        h.bindings, fun k hk => ?_, fun k hk => ?_, h.events⟩
      · simp only [Db.addMessage, List.any_append, h.taken k hk]
      · simp only [Db.addMessage, List.filter_append, h.messages k hk]

/-- A message of someone else. -/
theorem hiddenFrom_insertMessage {id : Uuid} {message : MessageRow} (hid : ¬ G.messages id)
    (htask : ¬ G.tasks message.taskId) : HiddenFrom G fun db => db.insertMessage id message := by
  intro db t ht
  simp only [Db.insertMessage] at ht
  split at ht
  · cases ht
  · obtain rfl := Option.some.inj ht
    have hagree := DbAgree.refl G db
    refine ⟨hagree.tasks, hagree.unfinished, hagree.locks, hagree.requests, hagree.active,
      hagree.cleanups, hagree.bindings, fun k hk => ?_, fun k hk => ?_, hagree.events⟩
    · have hne : id ≠ k := fun hkid => hid (hkid ▸ hk)
      simp [Db.addMessage, hne]
    · have hne : message.taskId ≠ k := fun hkid => htask (hkid ▸ hk)
      simp [Db.addMessage, List.filter_append, hne]

/-- An event of a Task of the user. -/
theorem respectedBy_addEvent {event : Stores.TaskEvent} :
    RespectedBy G fun db => some (db.addEvent event) := by
  intro db db' h
  refine ⟨fun hnone => by simp at hnone, fun t ht => ?_⟩
  obtain rfl := Option.some.inj ht
  refine ⟨_, rfl, h.tasks, h.unfinished, h.locks, h.requests, h.active, h.cleanups, h.bindings,
    h.taken, h.messages, fun k hk => ?_⟩
  simp only [Db.addEvent, List.filter_append, h.events k hk]

/-- An event of a Task of someone else. -/
theorem hiddenFrom_addEvent {event : Stores.TaskEvent} (htask : ¬ G.tasks (eventTask event)) :
    HiddenFrom G fun db => some (db.addEvent event) := by
  intro db t ht
  obtain rfl := Option.some.inj ht
  have hagree := DbAgree.refl G db
  refine ⟨hagree.tasks, hagree.unfinished, hagree.locks, hagree.requests, hagree.active,
    hagree.cleanups, hagree.bindings, hagree.taken, hagree.messages, fun k hk => ?_⟩
  have hne : eventTask event ≠ k := fun hkid => htask (hkid ▸ hk)
  simp [Db.addEvent, List.filter_append, hne]

/-- A request of the user. -/
theorem respectedBy_insertRequest {id : Uuid} {row : RequestRow} (hid : G.requests id)
    (hsession : G.sessions row.sessionId) : RespectedBy G fun db => db.insertRequest id row := by
  intro db db' h
  have hget := h.requests id hid
  have hactive := h.active _ hsession
  refine ⟨fun hnone => ?_, fun t ht => ?_⟩
  · simp only [Db.insertRequest] at hnone ⊢
    rw [← hactive]
    split at hnone
    · rfl
    · have hrefused : db.requests.insert id row = none := Option.map_eq_none_iff.mp hnone
      cases hold : db.requests.get id with
      | none =>
        obtain ⟨requests, hinsert⟩ := Table.insert_of_get_none hold row
        simp [hinsert] at hrefused
      | some old =>
        exact Option.map_eq_none_iff.mpr (Table.insert_of_get_some (hget ▸ hold) row)
  · obtain ⟨hidle, hnone, hrows, heq⟩ := Db.insertRequest_spec ht
    obtain ⟨requests, hinsert⟩ := Table.insert_of_get_none (hget ▸ hnone) row
    have ht' : db'.insertRequest id row = some { db' with requests } := by
      simp [Db.insertRequest, ← hactive, hidle, hinsert]
    obtain ⟨-, -, hrows', -⟩ := Db.insertRequest_spec ht'
    refine ⟨_, ht', ?_⟩
    constructor
    · rw [heq]; exact h.tasks
    · rw [heq]; exact h.unfinished
    · rw [heq]; exact h.locks
    · intro k hk
      rw [hrows, hrows', h.requests k hk]
    · intro k hk
      rw [active_insertRequest ht, active_insertRequest ht', h.active k hk]
    · rw [heq]; exact h.cleanups
    · rw [heq]; exact h.bindings
    · rw [heq]; exact h.taken
    · rw [heq]; exact h.messages
    · rw [heq]; exact h.events

/-- A request of someone else. -/
theorem hiddenFrom_insertRequest {id : Uuid} {row : RequestRow} (hid : ¬ G.requests id)
    (hsession : ¬ G.sessions row.sessionId) :
    HiddenFrom G fun db => db.insertRequest id row := by
  intro db t ht
  obtain ⟨-, -, hrows, heq⟩ := Db.insertRequest_spec ht
  constructor
  · rw [heq]; intro _ _; rfl
  · rw [heq]; intro _ _; rfl
  · rw [heq]; intro _ _; rfl
  · intro k hk
    have hne : k ≠ id := fun hkid => hid (hkid ▸ hk)
    rw [hrows, if_neg hne]
  · intro k hk
    have hne : row.sessionId ≠ k := fun hkid => hsession (hkid ▸ hk)
    rw [active_insertRequest ht, if_neg (fun hand => hne hand.1), Option.or_none]
  all_goals rw [heq]; intro _ _; rfl

end Inserts

/-! ## The two users -/

/-- Two users, with what belongs to each. -/
abbrev Regions := Bool → Region

/-- The users act on different sessions, Tasks and messages. -/
structure Apart (R : Regions) : Prop where
  sessions : ∀ u id, (R u).sessions id → ¬ (R !u).sessions id
  tasks : ∀ u id, (R u).tasks id → ¬ (R !u).tasks id
  messages : ∀ u id, (R u).messages id → ¬ (R !u).messages id

/-- No request id is used by both. -/
def RequestsApart (R : Regions) : Prop := ∀ u id, (R u).requests id → ¬ (R !u).requests id

/-- The Tasks of a user are those of the user's sessions. -/
def Placed (R : Regions) (w : World) : Prop :=
  ∀ id task, w.db.tasks.get id = some task → ∀ u, (R u).tasks id ↔ (R u).sessions task.sessionId

/-- What happens on the server: a route of a user, or work of the agent (a graph run, the delivery
of an event, recovery), whose effect may be any write. -/
inductive ApiOp
  | post (userId : String) (now : Time) (body : Body)
  | work (write : World → World)

/-- The statements of an operation. -/
def ApiOp.program (S : Settings) : ApiOp → Route
  | .post userId now body => Api.post S userId now body
  | .work write => .commit (fun w => some (write w)) (.executes 0) (.ret (.executes 0))

/-- The server of the API. -/
def apiWorkload (S : Settings) : Workload World RowKey Row ApiOp Response where
  row := World.row
  program := ApiOp.program S
  admits _ _ := true

/-- Its runs. -/
abbrev routes (S : Settings) :
    Machine (Server World RowKey Row ApiOp Response) (Server.Act ApiOp) :=
  Server.machine (apiWorkload S) fun _ => True

/-- A body of a user is about the user's own session, Task and message; its request id is one of the
user's, whatever the key. -/
def Body.IsIn (S : Settings) (G : Region) (body : Body) : Prop :=
  G.tasks body.taskId ∧ G.requests (requestId S body.idempotencyKey) ∧
    ∀ create, body = .create create → G.sessions create.sessionId ∧ G.messages create.inputMessageId

/-- Work for a user reads and writes what belongs to the user. -/
structure Confined (R : Regions) (u : Bool) (write : World → World) : Prop where
  placed : ∀ w, Placed R w → Placed R (write w)
  own : ∀ w w', Agree (R u) w w' → Agree (R u) (write w) (write w')
  other : ∀ w, Agree (R !u) w (write w)

/-- An action is one of the user `user` says. -/
def Sent (S : Settings) (R : Regions) (user : ℕ → Bool) : Server.Act ApiOp → Prop
  | .begin id (.post _ _ body) => body.IsIn S (R (user id))
  | .begin id (.work write) => Confined R (user id) write
  | _ => True

/-- In a run, each user gets the answers and finds the rows of the run without the other user. -/
def Unaffected (S : Settings) (R : Regions) (user : ℕ → Bool) (w : World)
    (actions : List (Server.Act ApiOp)) : Prop :=
  ∀ t, (routes S).run { db := w } actions = some t → ∀ u,
    ∃ t', (routes S).run { db := w } (actions.filter fun a => user a.call == u) = some t' ∧
      (∀ id, user id = u → t'.calls.get id = t.calls.get id) ∧ Agree (R u) t.db t'.db

/-! ## Routes and their user -/

/-- The side of a user. -/
def sideOf (R : Regions) (user : ℕ → Bool) (u : Bool) : Server.Side World RowKey where
  same := Agree (R u)
  mine := (R u).mine
  inv := Placed R
  calls id := user id == u

/-- A request that belongs to the user `u`, and not to the other one. -/
structure CommandOf (R : Regions) (u : Bool) (command : ApiRequest) : Prop where
  task : (R u).tasks command.turn.activeTaskId
  session : (R u).sessions command.turn.sessionId
  request : (R u).requests command.requestId
  message : command.input = .start → (R u).messages command.turn.currentInputMessageId

section Routes

variable {S : Settings} {R : Regions} {user : ℕ → Bool} {u : Bool} {command : ApiRequest}

/-- The two sides of a workload of routes meet the conditions of the library. -/
theorem sideOf_proper : (sideOf R user u).Proper (apiWorkload S) where
  refl _ := ⟨.refl _ _, fun _ _ => rfl⟩
  trans _ _ _ h h' := ⟨h.db.trans h'.db, fun id hid => (h.threads id hid).trans (h'.threads id hid)⟩
  symm _ _ h := ⟨h.db.symm, fun id hid => (h.threads id hid).symm⟩
  row _ _ _ h hk := h.db.row hk

/-- The last read of a route, of the Task it is about. -/
theorem local_acceptedTask {taskId : Uuid} (htask : (R u).tasks taskId) :
    (acceptedTask taskId).Local (sideOf R user u).toView World.row := by
  refine ⟨fun w w' _ _ h => ?_, fun w _ => ?_⟩
  · dsimp only
    rw [h.db.tasks taskId htask]
  · dsimp only
    cases w.db.tasks.get taskId <;> trivial

/-- A route that answers with a Task of the user shows the user's part only. -/
theorem local_answeredResult {taskId : Uuid} (htask : (R u).tasks taskId) (result : Stores.Result) :
    (answeredResult taskId result).Local (sideOf R user u).toView World.row := by
  unfold answeredResult
  split
  · trivial
  · unfold answered
    split
    · exact local_acceptedTask htask
    all_goals trivial
  · trivial

/-- A write of the tables, as a write of the world. -/
theorem respects_of_db {write : Db → Option Db} (h : RespectedBy (R u) write) :
    (sideOf R user u).toView.Respects fun w => (write w.db).map fun db => { w with db } := by
  intro w w' _ _ hagree
  obtain ⟨hnone, hsome⟩ := h w.db w'.db hagree.db
  refine ⟨fun hn => ?_, fun t ht => ?_⟩
  · exact Option.map_eq_none_iff.mpr (hnone (Option.map_eq_none_iff.mp hn))
  · obtain ⟨db, hdb, rfl⟩ := Option.map_eq_some_iff.mp ht
    obtain ⟨db', hdb', hagree'⟩ := hsome db hdb
    exact ⟨{ w' with db := db' }, Option.map_eq_some_iff.mpr ⟨db', hdb', rfl⟩, hagree',
      hagree.threads⟩

/-- A write of the database that a user does not see is none in the world either. -/
theorem hides_of_db {write : Db → Option Db} (h : HiddenFrom (R u) write) :
    (sideOf R user u).toView.Hides fun w => (write w.db).map fun db => { w with db } := by
  intro w t _ ht
  obtain ⟨db, hdb, rfl⟩ := Option.map_eq_some_iff.mp ht
  exact ⟨h w.db db hdb, fun _ _ => rfl⟩

/-- What a `START` inserts, for the user. -/
theorem respectedBy_insertStart {G : Region} {turn : TaskTurn} (htask : G.tasks turn.activeTaskId)
    (hmessage : G.messages turn.currentInputMessageId) :
    RespectedBy G (Stores.RequestStore.insertStart turn) :=
  (respectedBy_insertTask htask).bind
    ((respectedBy_insertMessage hmessage).bind respectedBy_addEvent)

/-- What a `START` inserts, for someone else. -/
theorem hiddenFrom_insertStart {G : Region} {turn : TaskTurn}
    (htask : ¬ G.tasks turn.activeTaskId) (hsession : ¬ G.sessions turn.sessionId)
    (hmessage : ¬ G.messages turn.currentInputMessageId) :
    HiddenFrom G (Stores.RequestStore.insertStart turn) :=
  (hiddenFrom_insertTask htask hsession).bind
    ((hiddenFrom_insertMessage hmessage htask).bind (hiddenFrom_addEvent htask))

/-- Tasks stay where they belong when a request of a user is admitted. -/
theorem keeps_admission (hapart : Apart R) (hcommand : CommandOf R u command)
    {write : Db → Option Db} {v : Bool} {row : RequestRow}
    (hwrite : write = Stores.RequestStore.insertStart command.turn ∨ write = some) :
    (sideOf R user v).toView.Keeps fun w =>
      ((write w.db).bind fun db => db.insertRequest command.requestId row).map
        fun db => { w with db } := by
  intro w t hplaced ht
  obtain ⟨db, hdb, rfl⟩ := Option.map_eq_some_iff.mp ht
  obtain ⟨db₁, hstart, hinsert⟩ := Option.bind_eq_some_iff.mp hdb
  obtain ⟨-, -, -, heq⟩ := Db.insertRequest_spec hinsert
  intro id task htask u'
  have htask : db₁.tasks.get id = some task := by
    have htask : db.tasks.get id = some task := htask
    rwa [heq] at htask
  rcases hwrite with rfl | rfl
  · obtain ⟨-, hget, -⟩ := Stores.insertStart_spec hstart
    rw [hget] at htask
    split at htask
    · rename_i hid
      obtain rfl := Option.some.inj htask
      rw [hid]
      -- The new Task belongs to `u` with its session, and to the other user with neither.
      by_cases huser : u' = u
      · rw [huser]
        exact iff_of_true hcommand.task hcommand.session
      · obtain rfl : u' = !u := by revert huser; cases u <;> cases u' <;> decide
        exact iff_of_false (hapart.tasks u _ hcommand.task)
          (hapart.sessions u _ hcommand.session)
    · exact hplaced id task htask u'
  · obtain rfl := Option.some.inj hstart
    exact hplaced id task htask u'

/-- The insert of a request of the user is the last statement of its route. -/
theorem local_commit (hapart : Apart R) (hcommand : CommandOf R u command) {write : Db → Option Db}
    (hwrite : write = Stores.RequestStore.insertStart command.turn ∨ write = some)
    (hrespected : RespectedBy (R u) write) (target : Graph.Node) (base : Option ℕ) (now : Time) :
    ((Txn.commit (fun db => (write db).bind fun db => db.insertRequest command.requestId
        (Stores.RequestStore.admitted S.stores command target base now))
      (.ok (.request (Stores.RequestStore.admitted S.stores command target base now)))
      (Stores.RequestStore.arbitrate S.stores command) : Stores.Transaction).within World.db
      (fun w db => { w with db }) (fun _ => .executes command.requestId)
      (answeredResult command.turn.activeTaskId)).Local (sideOf R user u).toView World.row := by
  refine ⟨respects_of_db (hrespected.bind ?_), keeps_admission hapart hcommand hwrite, ?_, ?_⟩
  · exact respectedBy_insertRequest hcommand.request hcommand.session
  · intro w w' _ _ h
    dsimp only
    rw [h.db.requests _ hcommand.request]
  · intro w _
    dsimp only
    cases w.db.requests.get command.requestId with
    | none => exact local_answeredResult hcommand.task _
    | some existing => exact local_answeredResult hcommand.task _

/-- `RequestStore.accept` of a request of the user. -/
theorem local_accept (hapart : Apart R) (hcommand : CommandOf R u command) (target : Graph.Node)
    (base : Option ℕ) (now : Time) :
    ((Stores.RequestStore.accept S.stores command target base now).within World.db
      (fun w db => { w with db }) (fun _ => .executes command.requestId)
      (answeredResult command.turn.activeTaskId)).Local (sideOf R user u).toView World.row := by
  have hanswer : ∀ result, (answeredResult command.turn.activeTaskId result).Local
      (sideOf R user u).toView World.row := local_answeredResult hcommand.task
  -- The row of the request.
  refine ⟨fun w w' _ _ h => ?_, fun w _ => ?_⟩
  · dsimp only
    rw [h.db.requests _ hcommand.request]
  dsimp only
  cases w.db.requests.get command.requestId with
  | some existing => exact hanswer _
  | none =>
  -- The active request of the session.
  refine ⟨fun w w' _ _ h => ?_, fun w _ => ?_⟩
  · dsimp only
    rw [h.db.active _ hcommand.session]
  dsimp only
  cases w.db.activeRequest? command.turn.sessionId with
  | some active => exact hanswer _
  | none =>
  -- The cleanup of the Task.
  refine ⟨fun w w' _ _ h => ?_, fun w _ => ?_⟩
  · dsimp only
    rw [h.db.cleanups _ hcommand.task]
  dsimp only
  cases w.db.cleanups.get command.turn.activeTaskId with
  | some cleanup => exact hanswer _
  | none =>
  -- The Task, with its lock.
  refine ⟨hcommand.task, fun w _ => ?_⟩
  dsimp only
  generalize ((World.row w (.task command.turn.activeTaskId)).bind _ : Option TaskRow) = task
  cases hinput : command.input with
  | resume interruptId signal =>
    cases task with
    | none => exact hanswer _
    | some task =>
      dsimp only
      split
      · exact hanswer _
      · split
        · exact hanswer _
        · exact local_commit hapart hcommand (.inr rfl)
            respectedBy_some target base now
  | start =>
    cases task with
    | some task => exact hanswer _
    | none =>
      refine ⟨fun w w' _ _ h => ?_, fun w _ => ⟨fun w w' _ _ h => ?_, fun w' _ => ?_⟩⟩
      · dsimp only
        rw [h.db.locks _ hcommand.session]
      · dsimp only
        rw [h.db.unfinished _ hcommand.session]
      · dsimp only
        split
        · exact hanswer _
        · exact hanswer _
        · exact local_commit hapart hcommand (.inl rfl)
            (respectedBy_insertStart hcommand.task (hcommand.message hinput)) target base now

/-- A request that does not belong to a user. -/
structure CommandOutside (G : Region) (command : ApiRequest) : Prop where
  task : ¬ G.tasks command.turn.activeTaskId
  session : ¬ G.sessions command.turn.sessionId
  request : ¬ G.requests command.requestId
  message : command.input = .start → ¬ G.messages command.turn.currentInputMessageId

/-- What belongs to one user does not belong to the other. -/
theorem CommandOf.outside (hapart : Apart R) (hrequests : RequestsApart R)
    (h : CommandOf R u command) : CommandOutside (R !u) command where
  task := hapart.tasks u _ h.task
  session := hapart.sessions u _ h.session
  request := hrequests u _ h.request
  message hinput := hapart.messages u _ (h.message hinput)

/-- An answer writes nothing. -/
theorem foreign_answeredResult {v : Bool} (taskId : Uuid) (result : Stores.Result) :
    (answeredResult taskId result).Foreign (sideOf R user v).toView World.row := by
  unfold answeredResult
  split
  · trivial
  · unfold answered
    split
    · intro w _
      dsimp only
      cases w.db.tasks.get taskId <;> trivial
    all_goals trivial
  · trivial

/-- The insert of a request is the last statement of its route; the other user does not see it. -/
theorem foreign_commit (hapart : Apart R) {v : Bool} (hcommand : CommandOf R u command)
    (houtside : CommandOutside (R v) command) {write : Db → Option Db}
    (hwrite : write = Stores.RequestStore.insertStart command.turn ∨ write = some)
    (hhidden : HiddenFrom (R v) write) (target : Graph.Node) (base : Option ℕ) (now : Time) :
    ((Txn.commit (fun db => (write db).bind fun db => db.insertRequest command.requestId
        (Stores.RequestStore.admitted S.stores command target base now))
      (.ok (.request (Stores.RequestStore.admitted S.stores command target base now)))
      (Stores.RequestStore.arbitrate S.stores command) : Stores.Transaction).within World.db
      (fun w db => { w with db }) (fun _ => .executes command.requestId)
      (answeredResult command.turn.activeTaskId)).Foreign (sideOf R user v).toView World.row := by
  refine ⟨hides_of_db (hhidden.bind ?_), keeps_admission hapart hcommand hwrite, ?_⟩
  · exact hiddenFrom_insertRequest houtside.request houtside.session
  · intro w _
    dsimp only
    cases w.db.requests.get command.requestId with
    | none => exact foreign_answeredResult _ _
    | some existing => exact foreign_answeredResult _ _

/-- `RequestStore.accept` of a request of the other user. -/
theorem foreign_accept (hapart : Apart R) {v : Bool} (hcommand : CommandOf R u command)
    (houtside : CommandOutside (R v) command) (target : Graph.Node) (base : Option ℕ)
    (now : Time) :
    ((Stores.RequestStore.accept S.stores command target base now).within World.db
      (fun w db => { w with db }) (fun _ => .executes command.requestId)
      (answeredResult command.turn.activeTaskId)).Foreign (sideOf R user v).toView World.row := by
  have hanswer : ∀ result, (answeredResult command.turn.activeTaskId result).Foreign
      (sideOf R user v).toView World.row := foreign_answeredResult _
  -- The lookups of the row, of the active request and of the cleanup touch what is the user's own.
  intro w _
  dsimp only
  cases w.db.requests.get command.requestId with
  | some existing => exact hanswer _
  | none =>
  intro w _
  dsimp only
  cases w.db.activeRequest? command.turn.sessionId with
  | some active => exact hanswer _
  | none =>
  intro w _
  dsimp only
  cases w.db.cleanups.get command.turn.activeTaskId with
  | some cleanup => exact hanswer _
  | none =>
  refine ⟨houtside.task, fun w _ => ?_⟩
  dsimp only
  generalize ((World.row w (.task command.turn.activeTaskId)).bind _ : Option TaskRow) = task
  cases hinput : command.input with
  | resume interruptId signal =>
    cases task with
    | none => exact hanswer _
    | some task =>
      dsimp only
      split
      · exact hanswer _
      · split
        · exact hanswer _
        · exact foreign_commit hapart hcommand houtside (.inr rfl) hiddenFrom_some target base now
  | start =>
    cases task with
    | some task => exact hanswer _
    | none =>
      intro w _ w' _
      dsimp only
      split
      · exact hanswer _
      · exact hanswer _
      · refine foreign_commit hapart hcommand houtside (.inl rfl) ?_ target base now
        exact hiddenFrom_insertStart houtside.task houtside.session (houtside.message hinput)

/-- The admission of a request of the user. -/
theorem local_admitCommand (hapart : Apart R) (hcommand : CommandOf R u command) (now : Time) :
    (admitCommand S now command).Local (sideOf R user u).toView World.row := by
  refine ⟨fun w w' _ _ h => ?_, fun w _ => ?_⟩
  · dsimp only
    rw [h.db.requests _ hcommand.request]
  dsimp only
  cases w.db.requests.get command.requestId with
  | some existing => exact local_answeredResult hcommand.task _
  | none =>
  refine ⟨fun w w' _ _ h => ?_, fun w _ => ?_⟩
  · dsimp only
    rw [h.threads _ hcommand.session]
  dsimp only
  cases Session.targetOf S.deployment (w.threads command.turn.sessionId) command with
  | error e => trivial
  | ok target => exact local_accept hapart hcommand target _ now

/-- The admission of a request of the other user. -/
theorem foreign_admitCommand (hapart : Apart R) {v : Bool} (hcommand : CommandOf R u command)
    (houtside : CommandOutside (R v) command) (now : Time) :
    (admitCommand S now command).Foreign (sideOf R user v).toView World.row := by
  intro w _
  dsimp only
  cases w.db.requests.get command.requestId with
  | some existing => exact foreign_answeredResult _ _
  | none =>
  intro w _
  dsimp only
  cases Session.targetOf S.deployment (w.threads command.turn.sessionId) command with
  | error e => trivial
  | ok target => exact foreign_accept hapart hcommand houtside target _ now

/-- The read of the Task that a command is for: it is in a session of its user. -/
theorem local_ownedTask {taskId : Uuid} {userId : String} {next : TaskRow → Route}
    (htask : (R u).tasks taskId)
    (h : ∀ task, (R u).sessions task.sessionId →
      (next task).Local (sideOf R user u).toView World.row) :
    (ownedTask taskId userId next).Local (sideOf R user u).toView World.row := by
  refine ⟨fun w w' _ _ h => ?_, fun w hplaced => ?_⟩
  · dsimp only
    rw [h.db.tasks _ htask]
  dsimp only
  cases hrow : w.db.tasks.get taskId with
  | none => trivial
  | some task =>
    dsimp only
    split
    · trivial
    · exact h task ((hplaced taskId task hrow u).mp htask)

/-- A route on a Task of another user is foreign when the rest of it is. -/
theorem foreign_ownedTask {v : Bool} {taskId : Uuid} {userId : String} {next : TaskRow → Route}
    (htask : (R u).tasks taskId)
    (h : ∀ task, (R u).sessions task.sessionId →
      (next task).Foreign (sideOf R user v).toView World.row) :
    (ownedTask taskId userId next).Foreign (sideOf R user v).toView World.row := by
  intro w hplaced
  dsimp only
  cases hrow : w.db.tasks.get taskId with
  | none => trivial
  | some task =>
    dsimp only
    split
    · trivial
    · exact h task ((hplaced taskId task hrow u).mp htask)

/-- A request of the user is admitted within the user's part. -/
theorem local_admitOr (hapart : Apart R) {request : Except HttpError ApiRequest}
    (h : ∀ command, request = .ok command → CommandOf R u command) (now : Time) :
    (admitOr S now request).Local (sideOf R user u).toView World.row := by
  cases request with
  | error e => trivial
  | ok command => exact local_admitCommand hapart (h command rfl) now

/-- A request of a user is foreign to the other one. -/
theorem foreign_admitOr (hapart : Apart R) (hrequests : RequestsApart R)
    {request : Except HttpError ApiRequest}
    (h : ∀ command, request = .ok command → CommandOf R u command) (now : Time) :
    (admitOr S now request).Foreign (sideOf R user (!u)).toView World.row := by
  cases request with
  | error e => trivial
  | ok command =>
    have hcommand := h command rfl
    exact foreign_admitCommand hapart hcommand (hcommand.outside hapart hrequests) now

/-- The request of a new Task belongs to the user who sends it. -/
theorem createCommand_isIn {body : TaskCreateRequest} (h : (Body.create body).IsIn S (R u))
    (userId : String) : CommandOf R u (createCommand S userId body) := by
  obtain ⟨htask, hrequest, hcreate⟩ := h
  obtain ⟨hsession, hmessage⟩ := hcreate body rfl
  exact ⟨htask, hsession, hrequest, fun _ => hmessage⟩

/-- So does the answer to an interrupt. -/
theorem resumeCommand_isIn {body : ResumeRequest} (h : (Body.resume body).IsIn S (R u))
    {task : TaskRow} (hsession : (R u).sessions task.sessionId)
    (hcommand : resumeCommand S task body = .ok command) : CommandOf R u command := by
  obtain ⟨-, interruptId, -, rfl⟩ := resumeCommand_eq_ok.mp hcommand
  exact ⟨h.1, hsession, h.2.1, fun hinput => by cases hinput⟩

/-- So does a cancellation. -/
theorem cancelCommand_isIn {body : CancelRequest} (h : (Body.cancel body).IsIn S (R u))
    {task : TaskRow} (hsession : (R u).sessions task.sessionId)
    (hcommand : cancelCommand S task body = .ok command) : CommandOf R u command := by
  obtain ⟨-, interruptId, -, rfl⟩ := cancelCommand_eq_ok.mp hcommand
  exact ⟨h.1, hsession, h.2.1, fun hinput => by cases hinput⟩

/-- A route of the user. -/
theorem local_post (hapart : Apart R) {body : Body} (h : body.IsIn S (R u)) (userId : String)
    (now : Time) : (post S userId now body).Local (sideOf R user u).toView World.row := by
  cases body with
  | create body => exact local_admitCommand hapart (createCommand_isIn h userId) now
  | resume body =>
    refine local_ownedTask h.1 fun task hsession => local_admitOr hapart ?_ now
    exact fun command hcommand => resumeCommand_isIn h hsession hcommand
  | cancel body =>
    refine local_ownedTask h.1 fun task hsession => local_admitOr hapart ?_ now
    exact fun command hcommand => cancelCommand_isIn h hsession hcommand

/-- A route of the other user. -/
theorem foreign_post (hapart : Apart R) (hrequests : RequestsApart R) {body : Body}
    (h : body.IsIn S (R u)) (userId : String) (now : Time) :
    (post S userId now body).Foreign (sideOf R user (!u)).toView World.row := by
  cases body with
  | create body =>
    have hcommand := createCommand_isIn h userId
    exact foreign_admitCommand hapart hcommand (hcommand.outside hapart hrequests) now
  | resume body =>
    refine foreign_ownedTask h.1 fun task hsession => foreign_admitOr hapart hrequests ?_ now
    exact fun command hcommand => resumeCommand_isIn h hsession hcommand
  | cancel body =>
    refine foreign_ownedTask h.1 fun task hsession => foreign_admitOr hapart hrequests ?_ now
    exact fun command hcommand => cancelCommand_isIn h hsession hcommand

/-- The work for a user, on the side of the user and of the other one. -/
theorem work_sides {write : World → World} (h : Confined R u write) :
    ((ApiOp.work write).program S).Local (sideOf R user u).toView World.row ∧
      ((ApiOp.work write).program S).Foreign (sideOf R user (!u)).toView World.row := by
  refine ⟨⟨fun w w' _ _ hagree => ⟨by simp, fun t ht => ?_⟩, fun w t hplaced ht => ?_, trivial⟩,
    fun w t _ ht => ?_, fun w t hplaced ht => ?_, trivial⟩
  · obtain rfl := Option.some.inj ht
    exact ⟨write w', rfl, h.own w w' hagree⟩
  · obtain rfl := Option.some.inj ht
    exact h.placed w hplaced
  · obtain rfl := Option.some.inj ht
    exact h.other w
  · obtain rfl := Option.some.inj ht
    exact h.placed w hplaced

/-- What the users send fits both sides. -/
theorem Sent.allows (hapart : Apart R) (hrequests : RequestsApart R) {a : Server.Act ApiOp}
    (h : Sent S R user a) (u : Bool) : (sideOf R user u).Allows (apiWorkload S) a := by
  cases a with
  | begin id op =>
    refine ⟨fun hside => ?_, fun hside => ?_⟩
    · obtain rfl : user id = u := by simpa [sideOf] using hside
      cases op with
      | post userId now body => exact local_post hapart h userId now
      | work write => exact (work_sides (S := S) h).1
    · obtain rfl : (!user id) = u := by
        have hside : (user id == u) = false := hside
        revert hside
        cases user id <;> cases u <;> decide
      cases op with
      | post userId now body => exact foreign_post hapart hrequests h userId now
      | work write => exact (work_sides (S := S) h).2
  | next id => trivial
  | lose id => trivial

/-- Two users who act on different sessions, Tasks and messages and use no request id in common do
not notice each other: in every run, statement by statement, each gets the answers and finds the
rows of the run without the other. -/
theorem admission_isolated (S : Settings) {R : Regions} (hapart : Apart R)
    (hrequests : RequestsApart R) (user : ℕ → Bool) {w : World} (hplaced : Placed R w)
    {actions : List (Server.Act ApiOp)} (hsent : ∀ a ∈ actions, Sent S R user a) :
    Unaffected S R user w actions := by
  intro t hrun u
  obtain ⟨t', ht', halike⟩ := Server.isolated sideOf_proper (fun _ _ => rfl)
    (Server.Alike.initial sideOf_proper hplaced)
    (fun a ha => (hsent a ha).allows hapart hrequests u) hrun
  refine ⟨t', ht', fun id hid => halike.own id ?_, halike.db⟩
  simp [sideOf, hid]

end Routes

/-! ## Two users on concrete inputs -/

namespace Users

/-- A deployment. -/
def settings : Settings where
  stores := Stores.Sample.settings
  deployment := Graph.Sample.deployment
  runtimeProfile := "basic"
  uuid5 := String.length
  interruptNumber := String.length

/-- One user has session 1, Task 7 and message 8, the other one session 2, Task 9 and message 10.
The keys of both are given. -/
def regions (keys : Bool → String) : Regions := fun u =>
  { sessions := fun id => id = if u then 2 else 1
    tasks := fun id => id = if u then 9 else 7
    messages := fun id => id = if u then 10 else 8
    requests := fun id => id = requestId settings (keys u) }

/-- Call 2 is the second user's. -/
def user (id : ℕ) : Bool := id == 2

/-- The command of each user. -/
def command (keys : Bool → String) : Bool → Body
  | false => .create ⟨"project", 1, 7, 8, "analyse", keys false⟩
  | true => .create ⟨"project", 2, 9, 10, "compare", keys true⟩

/-- No Tasks and no checkpoints. -/
def world : World where
  db := {}
  threads := fun _ => { world := {}, values := {}, next := none }

/-- Both users send their command, the second one in so many statements. -/
def both (keys : Bool → String) (statements : ℕ) : List (Server.Act ApiOp) :=
  .begin 1 (.post "first" 0 (command keys false)) :: List.replicate 9 (.next 1) ++
    .begin 2 (.post "second" 0 (command keys true)) :: List.replicate statements (.next 2)

/-- The answer to a call that has ended. -/
def answerOf (s : Server World RowKey Row ApiOp Response) (id : ℕ) : Option Response :=
  match s.calls.get id with
  | some ⟨_, .ended response⟩ => some response
  | _ => none

/-- The two regions of the sample have nothing in common. -/
theorem regions_apart (keys : Bool → String) : Apart (regions keys) := by
  constructor <;> intro u id h h' <;> cases u <;>
    exact absurd (show _ = _ from h.symm.trans h') (by decide)

/-- Each action of the sample is sent by the user whose region it is in. -/
theorem both_sent (keys : Bool → String) (statements : ℕ) :
    ∀ a ∈ both keys statements, Sent settings (regions keys) user a := by
  intro a ha
  simp only [both, List.mem_append, List.mem_cons, List.mem_replicate] at ha
  rcases ha with (rfl | ⟨-, rfl⟩) | (rfl | ⟨-, rfl⟩)
  · exact ⟨rfl, rfl, fun create hcreate => by
      obtain rfl := Body.create.inj hcreate; exact ⟨rfl, rfl⟩⟩
  · trivial
  · exact ⟨rfl, rfl, fun create hcreate => by
      obtain rfl := Body.create.inj hcreate; exact ⟨rfl, rfl⟩⟩
  · trivial

/-- In the world of the sample every row lies in the region of its user. -/
theorem placed (keys : Bool → String) : Placed (regions keys) world := by
  intro id task htask
  simp [world, Table.get_empty] at htask

end Users

/-- With different keys, both requests go on to be executed. -/
theorem admission_isolated_users :
    let keys : Bool → String := fun u => if u then "bb" else "a"
    ((routes Users.settings).run { db := Users.world } (Users.both keys 9)).isSome = true ∧
      Unaffected Users.settings (Users.regions keys) Users.user Users.world
        (Users.both keys 9) := by
  refine ⟨by decide +kernel, admission_isolated Users.settings (Users.regions_apart _) ?_
    Users.user (Users.placed _) (Users.both_sent _ 9)⟩
  intro u id h h'
  cases u <;> exact absurd (show _ = _ from h.symm.trans h') (by decide +kernel)

/-- With the same key, the second user is told of a conflict that is not there without the first. -/
theorem not_unaffected :
    ¬ ∀ S R user w actions, Apart R → Placed R w → (∀ a ∈ actions, Sent S R user a) →
      Unaffected S R user w actions := by
  intro hall
  have h := hall Users.settings _ _ _ _ (Users.regions_apart fun _ => "key") (Users.placed _)
    (Users.both_sent (fun _ => "key") 2)
  have hboth : (((routes Users.settings).run { db := Users.world }
      (Users.both (fun _ => "key") 2)).bind fun s => Users.answerOf s 2) =
        some (.error (conflict "Request ID was reused with different input")) := by decide +kernel
  have halone : (((routes Users.settings).run { db := Users.world }
      ((Users.both (fun _ => "key") 2).filter fun a => Users.user a.call == true)).bind fun s =>
        Users.answerOf s 2) = none := by decide +kernel
  obtain ⟨t, ht, hanswer⟩ := Option.bind_eq_some_iff.mp hboth
  obtain ⟨t', ht', hcalls, -⟩ := h t ht true
  have hsame : Users.answerOf t' 2 = Users.answerOf t 2 := by
    unfold Users.answerOf
    rw [hcalls 2 rfl]
  rw [ht'] at halone
  have halone : Users.answerOf t' 2 = none := halone
  rw [hsame, hanswer] at halone
  cases halone

end ExAgent.Api
