import ExAgent.Stores.Commits

/-!
# The transactions keep their contracts

Every call of the stores, run statement by statement among any others, commits nothing but what
`Commit` says of it. Each proof follows the program: a locked row stays as it was read until the
commit, a plain read only decides how to go on, and the end is one of the constructors of `Commit`.
-/

namespace ExAgent.Stores

open Lib ExAgent.Graph
open Session (ApiRequest ApiInput RequestState)

section Rules

variable {S : Settings} {op : Op} {held : List RowKey} {P : Db → Prop}

/-- What the commits of others can do. -/
abbrev Rely (S : Settings) : List RowKey → Db → Db → Prop := relyOn (Commit S)

/-- The contract of a transaction of the call `op`. -/
abbrev Keeps (S : Settings) (op : Op) (t : Transaction) (held : List RowKey)
    (P : Db → Prop) : Prop :=
  t.Safe Db.row (Rely S) (Commit S op) held P

/-- An assertion that the commits of others keep. -/
abbrev Kept (S : Settings) (held : List RowKey) (P : Db → Prop) : Prop :=
  Txn.Stable (Rely S) held P

/-- Other transactions leave the rows a lock covers. -/
theorem frames (S : Settings) : Txn.Frames Db.row (Rely S) := by
  rintro held db db' ⟨op, result, h⟩ k hk r hr
  exact h.frames hk hr

/-- A transaction that raises keeps its contract. -/
theorem Keeps.raise (e : StoreError) : Keeps S op (raise e) held P := trivial

/-- A commit that no index can refuse. -/
theorem Keeps.save {write : Db → Db} {answer : Answer}
    (h : ∀ db, P db → Commit S op held (.ok answer) db (write db)) :
    Keeps S op (save write answer) held P := by
  refine Txn.Safe.commit (fun db db' hdb hw => ?_) (Keeps.raise _)
  obtain rfl := Option.some.inj hw
  exact h db hdb

/-- The lock of a row in the table with the rows `f`. What is known afterwards is kept. -/
theorem Keeps.lockRow {β : Type} {k : RowKey} {f : β → Row} {g : Db → Option β} {p : Row → Option β}
    {next : Option β → Transaction} (hg : ∀ db, db.row k = (g db).map f)
    (hp : ∀ b, p (f b) = some b) (hP : Kept S held P)
    (hsome : ∀ b, Kept S (k :: held) (fun db => P db ∧ g db = some b) →
      Keeps S op (next (some b)) (k :: held) fun db => P db ∧ g db = some b)
    (hnone : Keeps S op (next none) held P) :
    Keeps S op (.lock k fun r => next (r.bind p)) held P :=
  Txn.Safe.lockRow (frames S) hg hp hP hP (fun _ hdb _ => hdb) hsome hnone

/-- A locked Task is kept, or is not there. -/
theorem Keeps.lockTask {id : Uuid} {next : Option TaskRow → Transaction} (hP : Kept S held P)
    (hsome : ∀ row, Kept S (.task id :: held) (fun db => P db ∧ db.tasks.get id = some row) →
      Keeps S op (next (some row)) (.task id :: held) fun db => P db ∧ db.tasks.get id = some row)
    (hnone : Keeps S op (next none) held P) : Keeps S op (lockTask id next) held P :=
  Keeps.lockRow (f := .task) (fun _ => rfl) (fun _ => rfl) hP hsome hnone

/-- A locked Session lock is kept, or is not there. -/
theorem Keeps.lockSessionLock {id : Uuid} {next : Option LockRow → Transaction} (hP : Kept S held P)
    (hsome : ∀ row, Kept S (.lock id :: held) (fun db => P db ∧ db.locks.get id = some row) →
      Keeps S op (next (some row)) (.lock id :: held) fun db => P db ∧ db.locks.get id = some row)
    (hnone : Keeps S op (next none) held P) : Keeps S op (lockSessionLock id next) held P :=
  Keeps.lockRow (f := .lock) (fun _ => rfl) (fun _ => rfl) hP hsome hnone

/-- A locked request is kept, or is not there. -/
theorem Keeps.lockRequest {id : Uuid} {next : Option RequestRow → Transaction} (hP : Kept S held P)
    (hsome : ∀ row, Kept S (.request id :: held) (fun db => P db ∧ db.requests.get id = some row) →
      Keeps S op (next (some row)) (.request id :: held) fun db => P db ∧
      db.requests.get id = some row)
    (hnone : Keeps S op (next none) held P) : Keeps S op (lockRequest id next) held P :=
  Keeps.lockRow (f := .request) (fun _ => rfl) (fun _ => rfl) hP hsome hnone

/-- A locked cleanup is kept, or is not there. -/
theorem Keeps.lockCleanup {id : Uuid} {next : Option CleanupRow → Transaction} (hP : Kept S held P)
    (hsome : ∀ row, Kept S (.cleanup id :: held) (fun db => P db ∧ db.cleanups.get id = some row) →
      Keeps S op (next (some row)) (.cleanup id :: held) fun db => P db ∧
      db.cleanups.get id = some row)
    (hnone : Keeps S op (next none) held P) : Keeps S op (lockCleanup id next) held P :=
  Keeps.lockRow (f := .cleanup) (fun _ => rfl) (fun _ => rfl) hP hsome hnone

/-- A locked binding is kept, or is not there. -/
theorem Keeps.lockBinding {id : Uuid} {next : Option Binding → Transaction} (hP : Kept S held P)
    (hsome : ∀ row, Kept S (.binding id :: held) (fun db => P db ∧ db.bindings.get id = some row) →
      Keeps S op (next (some row)) (.binding id :: held) fun db => P db ∧
      db.bindings.get id = some row)
    (hnone : Keeps S op (next none) held P) : Keeps S op (lockBinding id next) held P :=
  Keeps.lockRow (f := .binding) (fun _ => rfl) (fun _ => rfl) hP hsome hnone

/-- Nothing is known. -/
theorem kept_true : Kept S held fun _ => True := Txn.Stable.true

end Rules

/-! ## `RequestStore` -/

section Requests

variable {S : Settings}

/-- `accept` keeps its contract. -/
theorem keeps_accept (command : ApiRequest) (node : Node) (base : Option ℕ) (now : Time) :
    Keeps S (.accept command node base now) (RequestStore.accept S command node base now) []
      fun _ => True := by
  refine Txn.Safe.select kept_true fun db _ => ?_
  split
  · trivial
  refine Txn.Safe.select kept_true fun db _ => ?_
  split
  · trivial
  -- What `_admit_task` adds is the only difference between the two commits.
  have harbitrate : Keeps S (.accept command node base now) (RequestStore.arbitrate S command) []
      fun _ => True := by
    refine Txn.Safe.select kept_true fun db _ => ?_
    split <;> trivial
  refine Txn.Safe.select kept_true fun db _ => ?_
  split
  · trivial
  refine Keeps.lockTask kept_true (fun task hkept => ?_) ?_
  · split
    · trivial
    · rename_i hinput htask
      obtain rfl := Option.some.inj htask
      split
      · trivial
      · rename_i hsame
        split
        · trivial
        · rename_i hopen
          refine Txn.Safe.commit (fun db db' hdb hw => ?_) harbitrate
          exact .resume (by simp [hinput]) List.mem_cons_self hdb.2 (by simpa using hsame)
            (by simpa using hopen) hw
    · trivial
    · rename_i htask
      cases htask
  · split
    · trivial
    · rename_i htask
      cases htask
    · rename_i htask
      cases htask
    · rename_i hinput _
      refine Txn.Safe.select kept_true fun db _ => ?_
      refine Txn.Safe.select kept_true fun db _ => ?_
      split
      · trivial
      · trivial
      · exact Txn.Safe.commit (fun db db' _ hw => .start hinput hw) harbitrate

/-- The rows of requests are written under their lock. -/
theorem Keeps.required {op : Op} {id : Uuid} {next : RequestRow → Transaction}
    (h : ∀ row, Kept S [.request id] (fun db => True ∧ db.requests.get id = some row) →
      Keeps S op (next row) [.request id] fun db => True ∧ db.requests.get id = some row) :
    Keeps S op (RequestStore.required id next) [] fun _ => True :=
  Keeps.lockRequest kept_true h (Keeps.raise _)

/-- A write of a locked request. -/
theorem Keeps.saveRecord {op : Op} {id : Uuid} {row row' : RequestRow}
    (hid : op.requestId? = some id) (hchange : RequestChange S op (.ok (.request row')) row row') :
    Keeps S op (RequestStore.saveRecord S id row') [.request id] fun db =>
      True ∧ db.requests.get id = some row := by
  unfold RequestStore.saveRecord RequestStore.record
  split_ifs
  · trivial
  · exact Keeps.save fun db hdb => .request hid List.mem_cons_self hdb.2 hchange

/-- `claim` of the requests keeps its contract. -/
theorem keeps_claimRequest (id : Uuid) (now delay : Time) :
    Keeps S (.claimRequest id now delay) (RequestStore.claim S id now delay) [] fun _ => True := by
  refine Keeps.required fun row hkept => ?_
  split
  · trivial
  · rename_i hopen
    refine Txn.Safe.select hkept fun db _ => ?_
    exact Keeps.saveRecord rfl (.claim _ (by simpa using hopen))

/-- `finish` of the requests keeps its contract. -/
theorem keeps_finishRequest (record : RequestRow) (state : RequestState) (error : Option String)
    (now delay : Time) :
    Keeps S (.finishRequest record state error now delay)
      (RequestStore.finish S record state error now delay) [] fun _ => True := by
  unfold RequestStore.finish
  split
  · trivial
  · rename_i hstate
    refine Keeps.required fun row hkept => ?_
    split
    · trivial
    · rename_i hcurrent
      exact Keeps.saveRecord rfl (.finish (not_not.mp hstate) (by simpa using hcurrent))

/-- `resolve_applied` keeps its contract. -/
theorem keeps_resolveApplied (record : RequestRow) :
    Keeps S (.resolveApplied record) (RequestStore.resolveApplied record) [] fun _ => True := by
  refine Keeps.required fun row hkept => ?_
  split
  · trivial
  · rename_i h
    rw [not_or, not_not, not_not] at h
    exact Keeps.save fun db hdb => .request rfl List.mem_cons_self hdb.2 (.resolve h.1 h.2)

/-- `defer_busy` of the requests keeps its contract. -/
theorem keeps_deferRequest (id : Uuid) (now delay : Time) :
    Keeps S (.deferRequest id now delay) (RequestStore.deferBusy id now delay) []
      fun _ => True := by
  refine Keeps.required fun row hkept => ?_
  split
  · trivial
  · rename_i hopen
    exact Keeps.save fun db hdb => .request rfl List.mem_cons_self hdb.2
      (.defer (by simpa using hopen))

end Requests

/-! ## `FailureStore` -/

section Growth

variable {S : Settings} {op : Op} {held : List RowKey} {result : Result} {db db' : Db}

/-- What a call does to a request keeps its Task and never makes it active. -/
theorem RequestChange.active {row row' : RequestRow} (h : RequestChange S op result row row') :
    row'.taskId = row.taskId ∧ (row'.state.isActive = true → row.state.isActive = true) := by
  have hopen : ∀ {state : RequestState}, RequestStore.isOpen state = true →
      state.isActive = true := by
    intro state
    cases state <;> simp [RequestStore.isOpen, RequestState.isActive]
  cases h with
  | claim hasCleanup h =>
    refine ⟨?_, fun _ => hopen h⟩
    unfold RequestStore.claimed
    split_ifs <;> rfl
  | finish hstate hcurrent =>
    simp only [RequestStore.isCurrent, Bool.and_eq_true, decide_eq_true_eq] at hcurrent
    exact ⟨rfl, fun _ => hcurrent.1.2 ▸ hopen hcurrent.1.1⟩
  | resolve hstate hattempts => exact ⟨rfl, fun h => absurd h (by simp [RequestState.isActive])⟩
  | defer h => exact ⟨rfl, fun _ => hopen h⟩

/-- The rows that the `UPDATE` of `finish` writes. -/
theorem meeting_active {taskId : Uuid} {k : RowKey} :
    Txn.Meeting Db.row (FailureStore.isActiveOf taskId) db k ↔ ∃ id row, k = .request id ∧
      db.requests.get id = some row ∧ row.taskId = taskId ∧ row.state.isActive = true := by
  constructor
  · rintro ⟨r, hr, hm⟩
    cases r with
    | request row =>
      cases k with
      | request id => exact ⟨id, row, rfl, by simpa [Db.row] using hr,
          by simpa [FailureStore.isActiveOf] using hm⟩
      | _ => simp [Db.row] at hr
    | _ => cases hm
  · rintro ⟨id, row, rfl, hrow, ht, ha⟩
    exact ⟨.request row, by simp [Db.row, hrow], by simp [FailureStore.isActiveOf, ht, ha]⟩

/-- The rows that a `DELETE` of session locks drops. -/
theorem meeting_lock {taskId : Uuid} {k : RowKey} :
    Txn.Meeting Db.row (FailureStore.isLockOf taskId) db k ↔ ∃ sessionId lock, k = .lock sessionId ∧
      db.locks.get sessionId = some lock ∧ lock.activeTaskId = taskId := by
  constructor
  · rintro ⟨r, hr, hm⟩
    cases r with
    | lock lock =>
      cases k with
      | lock sessionId => exact ⟨sessionId, lock, rfl, by simpa [Db.row] using hr,
          by simpa [FailureStore.isLockOf] using hm⟩
      | _ => simp [Db.row] at hr
    | _ => cases hm
  · rintro ⟨sessionId, lock, rfl, hlock, ht⟩
    exact ⟨.lock lock, by simp [Db.row, hlock], by simp [FailureStore.isLockOf, ht]⟩

/-- While a Task is locked, no request of it becomes active. -/
theorem Commit.active_grow (h : Commit S op held result db db') {taskId : Uuid} {task : TaskRow}
    (htask : db.tasks.get taskId = some task) (hheld : .task taskId ∉ held) {k : RowKey}
    (hk : Txn.Meeting Db.row (FailureStore.isActiveOf taskId) db' k) :
    Txn.Meeting Db.row (FailureStore.isActiveOf taskId) db k := by
  rw [meeting_active] at hk ⊢
  obtain ⟨id, row', rfl, hrow', ht, ha⟩ := hk
  cases h.request_fate id with
  | same hsame => exact ⟨id, row', rfl, hsame ▸ hrow', ht, ha⟩
  | admitted hop hid hnone hidle hnew haccept =>
    rw [hrow'] at hnew
    obtain rfl := Option.some.inj hnew
    simp only [RequestStore.admitted] at ht
    rw [ht] at haccept
    rcases haccept with hnone | hlocked
    · rw [htask] at hnone
      cases hnone
    · exact absurd hlocked.1 hheld
  | changed hop hrow hnew hchange =>
    rw [hrow'] at hnew
    obtain rfl := Option.some.inj hnew
    have hactive := hchange.active
    exact ⟨id, _, rfl, hrow, hactive.1 ▸ ht, hactive.2 ha⟩
  | compensated hop hrow htask' hactive hnew =>
    rw [hrow'] at hnew
    obtain rfl := Option.some.inj hnew
    exact ⟨id, _, rfl, hrow, ht, hactive⟩

/-- While a Task is locked, it gets no session lock. -/
theorem Commit.lock_grow (h : Commit S op held result db db') {taskId : Uuid}
    (hheld : .task taskId ∉ held) {k : RowKey}
    (hk : Txn.Meeting Db.row (FailureStore.isLockOf taskId) db' k) :
    Txn.Meeting Db.row (FailureStore.isLockOf taskId) db k := by
  rw [meeting_lock] at hk ⊢
  obtain ⟨sessionId, lock', rfl, hlock', ht⟩ := hk
  cases h.lock_fate hlock' with
  | kept hlock howner => exact ⟨sessionId, _, rfl, hlock, howner ▸ ht⟩
  | ensured hh => exact absurd (ht ▸ hh) hheld
  | locked _ hh => exact absurd (ht ▸ hh) hheld

/-- What the `UPDATE` of `finish` finds in its snapshot. -/
theorem mem_activeRequests {taskId : Uuid} {k : RowKey} :
    k ∈ FailureStore.activeRequests db taskId ↔
      Txn.Meeting Db.row (FailureStore.isActiveOf taskId) db k := by
  rw [meeting_active]
  simp only [FailureStore.activeRequests, FailureStore.isActiveOf, List.mem_map, List.mem_filter,
    Prod.exists, Bool.and_eq_true, decide_eq_true_eq]
  constructor
  · rintro ⟨id, row, ⟨he, ht, ha⟩, rfl⟩
    exact ⟨id, row, rfl, Table.mem_entries_iff.mp he, ht, ha⟩
  · rintro ⟨id, row, rfl, hrow, ht, ha⟩
    exact ⟨id, row, ⟨Table.mem_entries_iff.mpr hrow, ht, ha⟩, rfl⟩

/-- What a `DELETE` of session locks finds in its snapshot. -/
theorem mem_locksOf {taskId : Uuid} {k : RowKey} :
    k ∈ FailureStore.locksOf db taskId ↔
      Txn.Meeting Db.row (FailureStore.isLockOf taskId) db k := by
  rw [meeting_lock]
  simp only [FailureStore.locksOf, FailureStore.isLockOf, List.mem_map, List.mem_filter,
    Prod.exists, decide_eq_true_eq]
  constructor
  · rintro ⟨sessionId, lock, ⟨he, ht⟩, rfl⟩
    exact ⟨sessionId, lock, rfl, Table.mem_entries_iff.mp he, ht⟩
  · rintro ⟨sessionId, lock, rfl, hlock, ht⟩
    exact ⟨sessionId, lock, ⟨Table.mem_entries_iff.mpr hlock, ht⟩, rfl⟩

/-- The rows taken by the `UPDATE` are the active requests of the Task. -/
theorem activeOf_of_taken {taskId : Uuid} {taken : List RowKey} (hheld : ∀ k ∈ taken, k ∈ held)
    (h : ∀ k, k ∈ taken ↔ Txn.Meeting Db.row (FailureStore.isActiveOf taskId) db k) :
    ActiveOf db held taskId (FailureStore.requestIds taken) := by
  have hmem : ∀ id, id ∈ FailureStore.requestIds taken ↔ .request id ∈ taken := by
    intro id
    simp only [FailureStore.requestIds, List.mem_filterMap]
    constructor
    · rintro ⟨k, hk, hid⟩
      cases k <;> simp at hid
      exact hid ▸ hk
    · exact fun hk => ⟨_, hk, rfl⟩
  refine ⟨fun id hid => hheld _ ((hmem id).mp hid), fun id => ?_⟩
  rw [hmem, h, meeting_active]
  constructor
  · rintro ⟨i, row, hi, hrow⟩
    obtain rfl := RowKey.request.inj hi
    exact ⟨row, hrow⟩
  · rintro ⟨row, hrow⟩
    exact ⟨id, row, rfl, hrow⟩

/-- The rows taken by the `DELETE` are the session locks of the Task. -/
theorem locksOf_of_taken {taskId : Uuid} {taken : List RowKey} (hheld : ∀ k ∈ taken, k ∈ held)
    (h : ∀ k, k ∈ taken ↔ Txn.Meeting Db.row (FailureStore.isLockOf taskId) db k) :
    LocksOf db held taskId (FailureStore.lockIds taken) := by
  have hmem : ∀ id, id ∈ FailureStore.lockIds taken ↔ .lock id ∈ taken := by
    intro id
    simp only [FailureStore.lockIds, List.mem_filterMap]
    constructor
    · rintro ⟨k, hk, hid⟩
      cases k <;> simp at hid
      exact hid ▸ hk
    · exact fun hk => ⟨_, hk, rfl⟩
  refine ⟨fun id hid => hheld _ ((hmem id).mp hid), fun id => ?_⟩
  rw [hmem, h, meeting_lock]
  constructor
  · rintro ⟨i, row, hi, hrow⟩
    obtain rfl := RowKey.lock.inj hi
    exact ⟨row, hrow⟩
  · rintro ⟨row, hrow⟩
    exact ⟨id, row, rfl, hrow⟩

end Growth

section Cleanups

variable {S : Settings} {op : Op} {held : List RowKey} {P : Db → Prop}

/-- The rows of cleanups are written under their lock. -/
theorem Keeps.requiredCleanup {id : Uuid} {next : CleanupRow → Transaction}
    (h : ∀ row, Kept S [.cleanup id] (fun db => True ∧ db.cleanups.get id = some row) →
      Keeps S op (next row) [.cleanup id] fun db => True ∧ db.cleanups.get id = some row) :
    Keeps S op (FailureStore.required id next) [] fun _ => True :=
  Keeps.lockCleanup kept_true h (Keeps.raise _)

/-- A fenced write goes on with the current attempt. -/
theorem Keeps.fenced {record : CleanupRow} {next : CleanupRow → Transaction}
    (h : ∀ row, row.state = .pending → row.attempts = record.attempts →
      Kept S [.cleanup record.taskId] (fun db => True ∧ db.cleanups.get record.taskId = some row) →
      Keeps S op (next row) [.cleanup record.taskId] fun db =>
        True ∧ db.cleanups.get record.taskId = some row) :
    Keeps S op (FailureStore.fenced record next) [] fun _ => True := by
  refine Keeps.requiredCleanup fun row hkept => ?_
  split
  · trivial
  · rename_i hfence
    rw [not_or, not_not, not_not] at hfence
    exact h row hfence.1 hfence.2 hkept

/-- A write of one locked cleanup. -/
theorem Keeps.saveCleanup {id : Uuid} {row row' : CleanupRow} {answer : Answer} {write : Db → Db}
    {events : List TaskEvent}
    (hwrite : ∀ db, write db = { db.putCleanup id row' with events := db.events ++ events })
    (hchange : CleanupChange op id (.ok answer) row row') :
    Keeps S op (Stores.save write answer) [.cleanup id] fun db =>
      True ∧ db.cleanups.get id = some row := by
  refine Keeps.save fun db hdb => ?_
  rw [hwrite]
  exact .cleanup List.mem_cons_self hdb.2 hchange

/-- A write of one cleanup adds no event. -/
theorem putCleanup_eq {id : Uuid} {row' : CleanupRow} (db : Db) :
    db.putCleanup id row' = { db.putCleanup id row' with events := db.events ++ [] } := by
  simp [Db.putCleanup]

/-- `claim` of the cleanups keeps its contract. -/
theorem keeps_claimCleanup (id : Uuid) (maxAttempts : ℕ) (now delay : Time) :
    Keeps S (.claimCleanup id maxAttempts now delay)
      (FailureStore.claim id maxAttempts now delay) []
      fun _ => True := by
  refine Keeps.requiredCleanup fun row _ => ?_
  split
  · trivial
  · rename_i hstate
    exact Keeps.saveCleanup putCleanup_eq (.claim (not_not.mp hstate))

/-- `defer_busy` of the cleanups keeps its contract. -/
theorem keeps_deferCleanup (id : Uuid) (now delay : Time) :
    Keeps S (.deferCleanup id now delay) (FailureStore.deferBusy id now delay) []
      fun _ => True := by
  refine Keeps.requiredCleanup fun row _ => ?_
  split
  · trivial
  · rename_i hstate
    exact Keeps.saveCleanup putCleanup_eq (.deferBusy (not_not.mp hstate))

/-- `retry_blocked` keeps its contract. -/
theorem keeps_retryBlocked (id : Uuid) (operation : Operation) (version : ℕ) (now : Time) :
    Keeps S (.retryBlocked id operation version now)
      (FailureStore.retryBlocked id operation version now) [] fun _ => True := by
  refine Keeps.requiredCleanup fun row _ => ?_
  split
  · split <;> trivial
  split
  · trivial
  · rename_i hstate
    split
    · trivial
    · rename_i hversion
      exact Keeps.saveCleanup (fun _ => rfl) (.retry (not_not.mp hstate) (not_not.mp hversion))

/-- `confirm` keeps its contract. -/
theorem keeps_confirm (claim : Option ℕ) (record : CleanupRow) (executionId : Option Uuid)
    (status : ExecutorStatus) (message : String) :
    Keeps S (.fenced claim record (.confirm executionId status message))
      (FailureStore.confirm record executionId status message) [] fun _ => True := by
  unfold FailureStore.confirm
  split
  · trivial
  · rename_i hproof
    exact Keeps.fenced fun row hstate hattempts _ => Keeps.saveCleanup putCleanup_eq
      (.confirm (by simpa using hproof) hstate hattempts rfl)

/-- `defer` keeps its contract. -/
theorem keeps_defer (claim : Option ℕ) (record : CleanupRow) (error : String) (now delay : Time)
    (blocked : Bool) :
    Keeps S (.fenced claim record (.defer error now delay blocked))
      (FailureStore.defer record error now delay blocked) [] fun _ => True :=
  Keeps.fenced fun _ hstate hattempts _ => Keeps.saveCleanup putCleanup_eq (.defer hstate hattempts)

/-- `bind_execution` keeps its contract. -/
theorem keeps_bindExecution (claim : Option ℕ) (record : CleanupRow) (executionId : Uuid) :
    Keeps S (.fenced claim record (.bindExecution executionId))
      (FailureStore.bindExecution record executionId) [] fun _ => True := by
  refine Keeps.fenced fun row hstate hattempts hkept => ?_
  split
  · trivial
  rename_i hfor
  refine Keeps.lockTask hkept (fun task hkept => ?_) (Keeps.raise _)
  dsimp only
  split
  · trivial
  refine Keeps.lockSessionLock hkept (fun lock hkept => ?_) ?_
  swap
  · trivial
  split
  · trivial
  · rename_i lock' hlock'
    rw [Option.filter_eq_some_iff] at hlock'
    obtain rfl := Option.some.inj hlock'.1
    split
    · trivial
    · exact Keeps.save fun db hdb => .bindExecution (by simp) hdb.1.1.2 hstate hattempts
        (by simpa using hfor) hdb.1.2 hdb.2 rfl

/-- `ensure` keeps its contract. -/
theorem keeps_ensure (taskId sessionId : Uuid) (source : FailureSource) (reason : String)
    (executionId : Option Uuid) (now : Time) :
    Keeps S (.ensure taskId sessionId source reason executionId now)
      (FailureStore.ensure taskId sessionId source reason executionId now) [] fun _ => True := by
  refine Keeps.lockTask kept_true (fun task hkept => ?_) ?_
  swap
  · trivial
  split
  · trivial
  rename_i task' htask'
  rw [Option.filter_eq_some_iff] at htask'
  obtain rfl := Option.some.inj htask'.1
  refine Txn.Safe.select hkept fun db _ => ?_
  split
  · split <;> trivial
  split
  · trivial
  refine Txn.Safe.select hkept fun db _ => ?_
  dsimp only
  split
  · rename_i hterminal
    split
    · trivial
    · rename_i htext
      refine Txn.Safe.commit (fun db db' hdb hw => ?_) (Keeps.raise _)
      exact .ensureTerminal List.mem_cons_self hdb.2 hterminal (by simpa using htext) rfl hw
  · rename_i hopen
    -- The commit is the same whether the session lock is there or not.
    have hcommit : ∀ {held : List RowKey} {db db' : Db} {row : CleanupRow} (turn : TaskTurn)
        (lock : Option LockRow), .task taskId ∈ held → db.tasks.get taskId = some task →
        (∀ l, lock = some l → l.activeTaskId = taskId ∧ .lock sessionId ∈ held ∧
          db.locks.get sessionId = some l) →
        row = FailureStore.opened taskId sessionId task turn source reason executionId now →
        ((db.insertCleanup taskId row).bind (FailureStore.heldLock row lock)).map
          (fun db => db.addEvent (.failureCleanupPending taskId source row.reason)) = some db' →
        Commit S (.ensure taskId sessionId source reason executionId now) held (.ok (.cleanup row))
          db db' := by
      intro held db db' row turn lock hheld htask hlock hrow hw
      obtain ⟨db₂, h₂, rfl⟩ := Option.map_eq_some_iff.mp hw
      obtain ⟨db₁, h₁, h₂⟩ := Option.bind_eq_some_iff.mp h₂
      exact .ensure hheld htask (by simpa using hopen) hlock hrow h₁ h₂
    refine Keeps.lockSessionLock hkept (fun lock hkept => ?_) ?_
    · split
      · trivial
      · rename_i howner
        refine Txn.Safe.commit (fun db db' hdb hw => ?_) (Keeps.raise _)
        refine hcommit _ (some lock) (by simp) hdb.1.2 ?_ rfl hw
        rintro l hl
        obtain rfl := Option.some.inj hl
        exact ⟨by simpa using howner, List.mem_cons_self, hdb.2⟩
    · split
      · trivial
      · refine Txn.Safe.commit (fun db db' hdb hw => ?_) (Keeps.raise _)
        exact hcommit _ none List.mem_cons_self hdb.2 (fun l hl => by cases hl) rfl hw

/-- `finish` of the cleanups keeps its contract. -/
theorem keeps_finish (claim : Option ℕ) (record : CleanupRow) :
    Keeps S (.fenced claim record .finish) (FailureStore.finish record) [] fun _ => True := by
  unfold FailureStore.finish
  split
  · trivial
  rename_i hproof
  rw [not_or, Bool.not_eq_false] at hproof
  refine Keeps.fenced fun row hstate hattempts hkept => ?_
  refine Keeps.lockTask hkept (fun task hkept => ?_) (Keeps.raise _)
  dsimp only
  split
  · trivial
  rename_i hsame
  -- From here on the Task is locked, so neither statement misses a row.
  refine Txn.Safe.matching (frames S) hkept (fun db k => mem_activeRequests) ?_
    fun requests held' hmore hrequests hkept => ?_
  · rintro db db' held' hdb hd ⟨op, result, h⟩ k hk
    exact h.active_grow hdb.2 (hd _ List.mem_cons_self) hk
  refine Txn.Safe.matching (frames S) hkept (fun db k => mem_locksOf) ?_
    fun locks held'' hmore' hlocks _ => ?_
  · rintro db db' held'' hdb hd ⟨op, result, h⟩ k hk
    exact h.lock_grow (hd _ (hmore _ List.mem_cons_self)) hk
  refine Keeps.save fun db hdb => ?_
  obtain ⟨⟨⟨⟨-, hrow⟩, htask⟩, hactive⟩, hlock⟩ := hdb
  refine .finish ⟨hmore' _ (hmore _ (by simp)), hmore' _ (hmore _ (by simp))⟩ hproof hrow hstate
    hattempts htask (fun hterminal => ?_)
    (activeOf_of_taken (fun k hk => hmore' k (hrequests k hk)) hactive)
    (locksOf_of_taken hlocks hlock) rfl
  by_contra hne
  exact hsame ⟨hterminal, by tauto⟩

end Cleanups

/-! ## The writers of Tasks -/

section Tasks

variable {S : Settings} {op : Op}

/-- The rows of Tasks are written under their lock. -/
theorem Keeps.requiredTask {id : Uuid} {next : TaskRow → Transaction}
    (h : ∀ task, Kept S [.task id] (fun db => True ∧ db.tasks.get id = some task) →
      Keeps S op (next task) [.task id] fun db => True ∧ db.tasks.get id = some task) :
    Keeps S op (TaskRepository.requiredTask id next) [] fun _ => True :=
  Keeps.lockTask kept_true h (Keeps.raise _)

/-- A write of one locked Task that leaves the session locks. -/
theorem Keeps.saveTask {id : Uuid} {task task' : TaskRow} {write : Db → Db}
    (messages : List MessageRow) (events : List TaskEvent)
    (hwrite : ∀ db, write db = { db.putTask id task' with
      messages := db.messages ++ messages, events := db.events ++ events })
    (hchange : TaskChange op id task task' false) :
    Keeps S op (Stores.save write .done) [.task id] fun db =>
      True ∧ db.tasks.get id = some task := by
  refine Keeps.save fun db hdb => ?_
  have hdel : db.locks.deleteKeys [] = db.locks := by
    simp [Table.deleteKeys]
  rw [hwrite]
  have h : Commit S op [.task id] (.ok .done) db
      { db.putTask id task' with
        locks := db.locks.deleteKeys []
        messages := db.messages ++ messages
        events := db.events ++ events } :=
    .task List.mem_cons_self hdb.2 hchange rfl
  rwa [hdel] at h

/-- A write of one locked Task that deletes its session lock. -/
theorem Keeps.deleteLocksOf {id : Uuid} {task task' : TaskRow}
    {write : List Uuid → Db → Db} (messages : List MessageRow) (events : List TaskEvent)
    (hwrite : ∀ sessionIds db, write sessionIds db = { db.putTask id task' with
      locks := db.locks.deleteKeys sessionIds
      messages := db.messages ++ messages
      events := db.events ++ events })
    (hkept : Kept S [.task id] fun db => True ∧ db.tasks.get id = some task)
    (hchange : TaskChange op id task task' true) :
    Keeps S op (TaskRepository.deleteLocksOf id fun locks => Stores.save (write locks) .done)
      [.task id] fun db => True ∧ db.tasks.get id = some task := by
  refine Txn.Safe.matching (frames S) hkept (fun db k => mem_locksOf) ?_
    fun locks held hmore hlocks _ => ?_
  · rintro db db' held hdb hd ⟨op, result, h⟩ k hk
    exact h.lock_grow (hd _ List.mem_cons_self) hk
  · refine Keeps.save fun db hdb => ?_
    rw [hwrite]
    exact .task (hmore _ List.mem_cons_self) hdb.1.2 hchange (locksOf_of_taken hlocks hdb.2)

/-- `update_status` keeps its contract. -/
theorem keeps_updateStatus (id : Uuid) (status : TaskStatus) (payload : Option Dict) :
    Keeps S (.updateStatus id status payload) (TaskRepository.updateStatus id status payload) []
      fun _ => True :=
  Keeps.requiredTask fun _ _ => Keeps.saveTask [] [.statusChanged id status payload]
    (fun db => by simp [Db.addEvent, Db.putTask]) .updateStatus

/-- `record_interrupt` keeps its contract. -/
theorem keeps_recordInterrupt (id : Uuid) (payload : Dict) :
    Keeps S (.recordInterrupt id payload) (TaskRepository.recordInterrupt id payload) []
      fun _ => True :=
  Keeps.requiredTask fun _ _ => Keeps.saveTask [] [.interrupted id payload]
    (fun db => by simp [Db.addEvent, Db.putTask]) .recordInterrupt

/-- `clear_interrupt` keeps its contract. -/
theorem keeps_clearInterrupt (id : Uuid) :
    Keeps S (.clearInterrupt id) (TaskRepository.clearInterrupt id) [] fun _ => True :=
  Keeps.requiredTask fun _ _ =>
    Keeps.saveTask [] [] (fun db => by simp [Db.putTask]) .clearInterrupt

/-- The message of a result. -/
def resultMessage (id : Uuid) (content : String) (metadata : Dict) : MessageRow :=
  { taskId := id, role := .assistant, content, metadata := some (.dict metadata) }

/-- `commit_message` keeps its contract. -/
theorem keeps_commitMessage (id : Uuid) (content : String) (status : TaskStatus) (metadata : Dict) :
    Keeps S (.commitMessage id content status metadata)
      (TaskRepository.commitMessage id content status metadata) [] fun _ => True := by
  refine Keeps.requiredTask fun task hkept => ?_
  have hchange : TaskChange (.commitMessage id content status metadata) id task _ _ :=
    .commitMessage
  split
  · rename_i hterminal
    rw [hterminal] at hchange
    exact Keeps.deleteLocksOf [resultMessage id content metadata] [.completed id status none]
      (fun _ _ => rfl) hkept hchange
  · rename_i hopen
    rw [Bool.not_eq_true] at hopen
    rw [hopen] at hchange
    exact Keeps.saveTask [resultMessage id content metadata] [.completed id status none]
      (fun _ => rfl) hchange

/-- `lock_session` keeps its contract. -/
theorem keeps_lockSession (id : Uuid) :
    Keeps S (.lockSession id) (TaskRepository.lockSession id) [] fun _ => True := by
  refine Keeps.requiredTask fun task hkept => ?_
  refine Keeps.lockSessionLock hkept (fun lock _ => ?_) ?_
  · dsimp only
    split <;> trivial
  · exact Txn.Safe.commit (fun db db' hdb hw => .lockSession List.mem_cons_self hdb.2 hw)
      (Keeps.raise _)

/-- The projection of a Task's state keeps its contract. -/
theorem keeps_project (id : Uuid) (status : TaskStatus) (interrupt : Option Dict) :
    Keeps S (.project id status interrupt) (TaskStateProjector.write id status interrupt) []
      fun _ => True := by
  refine Keeps.lockTask kept_true (fun task _ => ?_) (Keeps.raise _)
  dsimp only
  split
  · trivial
  rename_i hopen
  split
  · trivial
  rename_i hstatus
  split
  · trivial
  · exact Keeps.saveTask [] [TaskStateProjector.event id task status interrupt]
      (fun db => by simp [Db.addEvent, Db.putTask])
      (.project (by simpa using hopen) (by simpa using hstatus))

/-- The projection of a terminal message keeps its contract. -/
theorem keeps_terminal (id : Uuid) (status : TaskStatus) (message : String) (metadata : Dict) :
    Keeps S (.terminal id status message metadata)
      (EffectProjections.terminal id status message metadata) [] fun _ => True := by
  unfold EffectProjections.terminal
  split
  · trivial
  rename_i hstatus
  refine Keeps.lockTask kept_true (fun task hkept => ?_) (Keeps.raise _)
  dsimp only
  split
  · refine Txn.Safe.select hkept fun db _ => ?_
    split <;> trivial
  · rename_i hopen
    exact Keeps.deleteLocksOf [resultMessage id message metadata] [.completed id status none]
      (fun _ _ => rfl) hkept (.terminal (by simpa using hopen) (by simpa using hstatus))

/-- The projection of a binding keeps its contract. -/
theorem keeps_binding (id executionId : Uuid) (version : ℕ) (operationId : Option Uuid)
    (sequence : Option ℕ) (create : Bool) :
    Keeps S (.binding id executionId version operationId sequence create)
      (EffectProjections.binding id executionId version operationId sequence create) []
      fun _ => True := by
  refine Keeps.lockTask kept_true (fun task hkept => ?_) (Keeps.raise _)
  refine Keeps.lockBinding hkept (fun binding _ => ?_) ?_
  · dsimp only
    split
    · trivial
    · exact Keeps.save fun db _ => .binding List.mem_cons_self
  · dsimp only
    split
    · split
      · trivial
      refine Txn.Safe.select hkept fun db _ => ?_
      dsimp only
      split
      · refine Txn.Safe.commit (fun db db' hdb hw => ?_) (Keeps.raise _)
        show Commit S _ _ _ db (boundLock db' task.sessionId executionId none)
        exact .bind List.mem_cons_self hdb.2 (fun l hl => by cases hl) hw
      · refine Keeps.lockSessionLock hkept (fun lock _ => ?_) (Keeps.raise _)
        refine Txn.Safe.commit (fun db db' hdb hw => ?_) (Keeps.raise _)
        obtain ⟨db₁, h₁, rfl⟩ := Option.map_eq_some_iff.mp hw
        show Commit S _ _ _ db (boundLock db₁ task.sessionId executionId (some lock))
        refine .bind (by simp) hdb.1.2 ?_ h₁
        rintro l hl
        obtain rfl := Option.some.inj hl
        exact ⟨List.mem_cons_self, hdb.2⟩
    · trivial
    · trivial

end Tasks

/-- Every transaction of the stores keeps its contract. -/
theorem meets (S : Settings) (A : List (Entry Op Result) → Op → Bool) :
    (workload S A).Meets (Commit S) where
  frames := frames S
  safe op := by
    cases op with
    | accept command node base now => exact keeps_accept command node base now
    | claimRequest id now delay => exact keeps_claimRequest id now delay
    | finishRequest record state error now delay =>
      exact keeps_finishRequest record state error now delay
    | resolveApplied record => exact keeps_resolveApplied record
    | deferRequest id now delay => exact keeps_deferRequest id now delay
    | ensure taskId sessionId source reason executionId now =>
      exact keeps_ensure taskId sessionId source reason executionId now
    | claimCleanup id maxAttempts now delay => exact keeps_claimCleanup id maxAttempts now delay
    | deferCleanup id now delay => exact keeps_deferCleanup id now delay
    | retryBlocked id operation version now => exact keeps_retryBlocked id operation version now
    | fenced claim record write =>
      cases write with
      | bindExecution executionId => exact keeps_bindExecution claim record executionId
      | confirm executionId status message =>
        exact keeps_confirm claim record executionId status message
      | defer error now delay blocked => exact keeps_defer claim record error now delay blocked
      | finish => exact keeps_finish claim record
    | updateStatus id status payload => exact keeps_updateStatus id status payload
    | recordInterrupt id payload => exact keeps_recordInterrupt id payload
    | clearInterrupt id => exact keeps_clearInterrupt id
    | commitMessage id content status metadata =>
      exact keeps_commitMessage id content status metadata
    | lockSession id => exact keeps_lockSession id
    | project id status interrupt => exact keeps_project id status interrupt
    | binding id executionId version operationId sequence create =>
      exact keeps_binding id executionId version operationId sequence create
    | terminal id status message metadata => exact keeps_terminal id status message metadata

section Runs

variable {S : Settings} {A : List (Entry Op Result) → Op → Bool} {s s' : State}

/-- A run of the stores, statement by statement, is a run of their commits. -/
theorem moved {a : Server.Act Op} (hr : (runs S A).Reachable s)
    (hstep : (runs S A).step s a = some s') : Server.Moved (Commit S) s a s' :=
  Server.moved (meets S A) hr hstep

/-- The invariant rule of the stores: what holds initially and is kept by every commit holds of the
tables and the history in every run. -/
theorem commits_invariant {I : Db → List (Entry Op Result) → Prop}
    (hinit : ∀ db, Initial db → I db [])
    (hcommit : ∀ e held db db' history, I db history → (∃ h, A h e.op = true) →
      Commit S e.op held e.result db db' → I db' (history ++ [e]))
    (hr : (runs S A).Reachable s) : I s.db s.history := by
  induction hr with
  | start hs =>
    obtain ⟨db, hdb, rfl⟩ := hs
    exact hinit db hdb
  | next hr _ hstep ih =>
    cases moved hr hstep with
    | quiet hdb hhistory => rwa [hdb, hhistory]
    | committed e held write violated ha hcall hown hhistory hended =>
      rw [hhistory]
      obtain ⟨h, -, hadmits⟩ := Server.admitted_reachable hr _ _ hcall
      exact hcommit e held _ _ _ ih ⟨h, hadmits⟩ hown

/-- What every commit keeps stays true along every run. -/
theorem commits_stable {P : Db → Prop}
    (hcommit : ∀ op held result db db', P db → (∃ h, A h op = true) →
      Commit S op held result db db' → P db')
    (hr : (runs S A).Reachable s) (hl : (runs S A).Leads s s') (hP : P s.db) : P s'.db := by
  refine hl.stable (P := fun s => P s.db) (fun s a s' hr hP hstep => ?_) hr hP
  cases moved hr hstep with
  | quiet hdb hhistory => rwa [hdb]
  | committed e held write violated ha hcall hown hhistory hended =>
    obtain ⟨h, -, hadmits⟩ := Server.admitted_reachable hr _ _ hcall
    exact hcommit _ _ _ _ _ hP ⟨h, hadmits⟩ hown

end Runs

end ExAgent.Stores
