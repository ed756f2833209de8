import ExAgent.Failure.Operations
import ExAgent.Lib.History
import ExAgent.Stores.Fence

/-!
# Whether an operator's request is idempotent

A cleanup remembers the last operation that was applied to it and no earlier one. A request with the
key of that operation is a replay, or is refused when its hash differs. A request with an older key
is judged by the state and the version alone: unchanged it is refused, since the version has grown,
but with the current version it is applied once more. And the replay of a `FINALIZE` executes the
cleanup again for as long as it is `PENDING`. `operations_idempotent` says in which runs neither
happens; `not_once_per_key` has a run for each.
-/

namespace ExAgent.Failure.Operators

open Lib
open Stores (CleanupRow Db Row RowKey Operation OperatorAction StoreError Settings Op TaskEvent)

variable {D : Desk} {s s' : State} {r : Request} {now : Time} {db : Db} {row : CleanupRow}

/-! ## What a request does -/

/-- The operation of the request is the one that the cleanup remembers. -/
def IsLast (D : Desk) (r : Request) (row : CleanupRow) : Prop :=
  row.lastOperation.map Operation.id = some (r.operation D).id

/-- The hash that the cleanup remembers is the request's. -/
def SameHash (D : Desk) (r : Request) (row : CleanupRow) : Prop :=
  row.lastOperation.map Operation.hash = some (r.operation D).hash

/-- The cleanup is blocked, and has the version that the request expects. -/
def Awaits (r : Request) (row : CleanupRow) : Prop :=
  row.state = .blocked ∧ row.version = r.input.expectedVersion

instance (D : Desk) (r : Request) (row : CleanupRow) : Decidable (IsLast D r row) :=
  inferInstanceAs (Decidable (_ = _))

instance (D : Desk) (r : Request) (row : CleanupRow) : Decidable (SameHash D r row) :=
  inferInstanceAs (Decidable (_ = _))

instance (r : Request) (row : CleanupRow) : Decidable (Awaits r row) :=
  inferInstanceAs (Decidable (_ ∧ _))

/-- The database after a request that is applied. -/
def appliedTo (D : Desk) (r : Request) (now : Time) (db : Db) (row : CleanupRow) : Db :=
  (db.putCleanup r.taskId (Stores.FailureStore.retried row (r.operation D) now)).addEvent
    (.failureCleanupOperatorRequested r.taskId
      { r.operation D with reason := Stores.clip r.input.reason } row.lastError (row.version + 1))

/-- The ways a request goes, up to its answer from the store. -/
inductive Began (D : Desk) (r : Request) (now : Time) (db : Db) : Phase × Db × Bool → Prop
  | forbidden {error : OperationError} (hactor : r.actor ∉ D.operators) :
      Began D r now db (.raised error, db, false)
  | unknown {error : OperationError} (hactor : r.actor ∈ D.operators)
      (hrow : db.cleanups.get r.taskId = none) : Began D r now db (.raised error, db, false)
  | replayed {row : CleanupRow} (hactor : r.actor ∈ D.operators)
      (hrow : db.cleanups.get r.taskId = some row) (hlast : IsLast D r row)
      (hhash : SameHash D r row) : Began D r now db (afterStore r.action row true, db, false)
  | reused {row : CleanupRow} {error : OperationError} (hactor : r.actor ∈ D.operators)
      (hrow : db.cleanups.get r.taskId = some row) (hlast : IsLast D r row)
      (hhash : ¬SameHash D r row) : Began D r now db (.raised error, db, false)
  | refused {row : CleanupRow} {error : OperationError} (hactor : r.actor ∈ D.operators)
      (hrow : db.cleanups.get r.taskId = some row) (hlast : ¬IsLast D r row)
      (hawaits : ¬Awaits r row) : Began D r now db (.raised error, db, false)
  | applied {row : CleanupRow} (hactor : r.actor ∈ D.operators)
      (hrow : db.cleanups.get r.taskId = some row) (hlast : ¬IsLast D r row)
      (hawaits : Awaits r row) :
      Began D r now db
        (afterStore r.action (Stores.FailureStore.retried row (r.operation D) now) false,
          appliedTo D r now db row, true)

/-- A call of the store on a cleanup, run alone. -/
theorem required_exec (taskId : Uuid) (next : CleanupRow → Stores.Transaction) (db : Db) :
    (Stores.FailureStore.required taskId next).exec Db.row db =
      match db.cleanups.get taskId with
      | none => (.error (.lookupError "Unknown failure cleanup"), db)
      | some row => (next row).exec Db.row db := by
  have hread : Db.row db (.cleanup taskId) = (db.cleanups.get taskId).map Row.cleanup := rfl
  unfold Stores.FailureStore.required Stores.lockCleanup
  simp only [Txn.exec]
  rw [hread]
  cases db.cleanups.get taskId with
  | none => rfl
  | some row => rfl

/-- `retry_blocked`, by the row of the cleanup. -/
theorem retryBlocked_eq (hrow : db.cleanups.get r.taskId = some row) :
    retryBlocked D r now db =
      if IsLast D r row then
        if SameHash D r row then (.ok (.operation row true), db)
        else (.error (.failureOperationConflict "Idempotency key was reused with another request"),
          db)
      else if row.state ≠ .blocked then
        (.error (.failureOperationConflict ("Failure cleanup is not BLOCKED: " ++
          Stores.FailureStore.stateText row.state)), db)
      else if row.version ≠ r.input.expectedVersion then
        (.error (.failureOperationConflict
          "Failure cleanup version changed; refresh before retry"), db)
      else (.ok (.operation (Stores.FailureStore.retried row (r.operation D) now) false),
        appliedTo D r now db row) := by
  unfold retryBlocked Stores.FailureStore.retryBlocked
  rw [required_exec, hrow]
  dsimp only
  show Txn.exec Db.row (if IsLast D r row then
      (if ¬SameHash D r row then Stores.raise _ else .ret _)
    else if row.state ≠ .blocked then Stores.raise _
    else if row.version ≠ r.input.expectedVersion then Stores.raise _
    else Stores.save _ _) db = _
  by_cases hlast : IsLast D r row
  · by_cases hhash : SameHash D r row
    · simp only [hlast, hhash, if_true, not_true_eq_false, if_false]
      rfl
    · simp only [hlast, hhash, if_true, not_false_eq_true, if_false]
      rfl
  · rw [if_neg hlast, if_neg hlast]
    split_ifs
    · rfl
    · rfl
    · rfl

/-- A request goes one of these ways. -/
theorem begin_began (D : Desk) (r : Request) (now : Time) (db : Db) :
    Began D r now db (begin D r now db) := by
  unfold begin
  by_cases hactor : r.actor ∈ D.operators
  case neg =>
    rw [if_pos hactor]
    exact .forbidden hactor
  case pos =>
    rw [if_neg (not_not.mpr hactor)]
    cases hrow : db.cleanups.get r.taskId with
    | none =>
      have hnone : retryBlocked D r now db =
          (.error (.lookupError "Unknown failure cleanup"), db) := by
        unfold retryBlocked Stores.FailureStore.retryBlocked
        rw [required_exec, hrow]
      rw [hnone]
      exact .unknown hactor hrow
    | some row =>
      rw [retryBlocked_eq hrow]
      by_cases hlast : IsLast D r row
      · rw [if_pos hlast]
        by_cases hhash : SameHash D r row
        · rw [if_pos hhash]
          exact .replayed hactor hrow hlast hhash
        · rw [if_neg hhash]
          exact .reused hactor hrow hlast hhash
      · rw [if_neg hlast]
        by_cases hstate : row.state = .blocked
        · by_cases hversion : row.version = r.input.expectedVersion
          · rw [if_neg (not_not.mpr hstate), if_neg (not_not.mpr hversion)]
            exact .applied hactor hrow hlast ⟨hstate, hversion⟩
          · rw [if_neg (not_not.mpr hstate), if_pos hversion]
            exact .refused hactor hrow hlast fun h => hversion h.2
        · rw [if_pos hstate]
          exact .refused hactor hrow hlast fun h => hstate h.1

/-! ## What the recovery does -/

/-- What the recovery can do to a cleanup: its version grows, its last operation stays, and a
blocked one stays blocked. -/
structure Recovers (row row' : CleanupRow) : Prop where
  version : row.version ≤ row'.version
  lastOperation : row'.lastOperation = row.lastOperation
  blocked : row.state = .blocked → row'.state = .blocked

/-- A cleanup that is left alone recovers. -/
theorem Recovers.refl (row : CleanupRow) : Recovers row row := ⟨le_rfl, rfl, id⟩

/-- A call of the recovery is no operator's request. -/
theorem changed_recovers {op : Op} {id : Uuid} {result : Stores.Result} {row row' : CleanupRow}
    (hop : isRecovery op = true) (h : Stores.CleanupChange op id result row row') :
    Recovers row row' := by
  cases h with
  | @claim _ _ maxAttempts now delay hstate =>
    have hblocked : row.state ≠ .blocked := by
      rw [hstate]
      decide
    rcases Stores.cleanup_claimed_cases row maxAttempts now delay with ⟨error, h⟩ | h
    · rw [h]
      exact ⟨Nat.le_succ _, rfl, fun hb => absurd hb hblocked⟩
    · rw [h]
      exact ⟨Nat.le_succ _, rfl, fun hb => absurd hb hblocked⟩
  | deferBusy hstate =>
    exact ⟨Nat.le_succ _, rfl, fun hb => hb⟩
  | retry => cases hop
  | confirm hproof hstate hattempts hrow' =>
    rw [hrow']
    exact ⟨Nat.le_succ _, rfl, fun hb => hb⟩
  | defer hstate hattempts =>
    refine ⟨Nat.le_succ _, rfl, fun hb => ?_⟩
    rw [hstate] at hb
    cases hb

/-- Cleanups recover. -/
theorem recover_rows {op : Op} (hop : isRecovery op = true) {id : Uuid}
    (hrow : db.cleanups.get id = some row) :
    ∃ row', ((op.program D.settings).exec Db.row db).2.cleanups.get id = some row' ∧
      Recovers row row' := by
  have hsafe := (Stores.meets D.settings fun _ _ => true).safe op
  rcases hsafe.exec (s := db) trivial with hsame | ⟨held, hcommit⟩
  · exact ⟨row, (congrArg (fun db : Db => db.cleanups.get id) hsame).trans hrow, .refl row⟩
  · cases hcommit.cleanup_fate id with
    | same h => exact ⟨row, h.trans hrow, .refl row⟩
    | opened hop' hnone => exact absurd (hnone.symm.trans hrow) nofun
    | changed hrow₀ hnew hchange =>
      obtain rfl := Option.some.inj (hrow₀.symm.trans hrow)
      exact ⟨_, hnew, changed_recovers hop hchange⟩
    | bound hop' hid hrow₀ hstate hattempts hfor hnew =>
      obtain rfl := Option.some.inj (hrow₀.symm.trans hrow)
      exact ⟨_, hnew, Nat.le_succ _, rfl, fun hb => hb⟩
    | finished hop' hid hrow₀ hstate hattempts hnew =>
      obtain rfl := Option.some.inj (hrow₀.symm.trans hrow)
      refine ⟨_, hnew, Nat.le_succ _, rfl, fun hb => ?_⟩
      rw [hstate] at hb
      cases hb

/-- A commit adds no event of an operator. -/
def Silent (db db' : Db) : Prop := operatorEvents db' = operatorEvents db

/-- An event that is none of an operator's is silent. -/
theorem silent_addEvent {event : TaskEvent} (h : isOperatorEvent event = false) (db : Db) :
    Silent db (db.addEvent event) := by
  unfold Silent operatorEvents Stores.Db.addEvent
  dsimp only
  rw [List.filter_append, List.filter_singleton, h]
  exact List.append_nil _

section Writes

open Stores Stores.FailureStore

variable {next : CleanupRow → Transaction}

/-- A commit that no index can refuse. -/
theorem writes_save {write : Db → Db} {answer : Answer} (h : ∀ db, Silent db (write db)) :
    (save write answer).Writes Silent := by
  refine ⟨fun s s' hs => ?_, trivial⟩
  rw [← Option.some.inj hs]
  exact h s

/-- A call on a cleanup is silent when what follows its lock is. -/
theorem writes_required {id : Uuid} (h : ∀ row, (next row).Writes Silent) :
    (required id next).Writes Silent := by
  intro r
  dsimp only
  split
  · trivial
  · exact h _

/-- A call that is fenced by an attempt is silent when what follows the fence is. -/
theorem writes_fenced {record : CleanupRow} (h : ∀ row, (next row).Writes Silent) :
    (fenced record next).Writes Silent := by
  refine writes_required fun row => ?_
  split_ifs
  · trivial
  · exact h row

/-- `ensure` adds an event of its own. -/
theorem writes_ensure {taskId sessionId : Uuid} {source : FailureSource} {reason : String}
    {executionId : Option Uuid} {now : Time} :
    (ensure taskId sessionId source reason executionId now).Writes Silent := by
  intro r
  dsimp only
  split
  · trivial
  · intro db
    dsimp only
    split
    · split_ifs
      · trivial
      · trivial
    · -- The conditions on the Task come before the last read.
      split_ifs
      · trivial
      · exact fun _ => trivial
      · refine fun _ => ⟨fun db db' h => ?_, trivial⟩
        obtain ⟨-, -, heq⟩ := Db.insertCleanup_spec h
        rw [heq]
        rfl
      · intro db lock
        dsimp only
        split_ifs
        · trivial
        · refine ⟨fun db db' h => ?_, trivial⟩
          obtain ⟨db₂, hdb₂, rfl⟩ := Option.map_eq_some_iff.mp h
          obtain ⟨db₁, hdb₁, hdb₂⟩ := Option.bind_eq_some_iff.mp hdb₂
          obtain ⟨-, -, heq₁⟩ := Db.insertCleanup_spec hdb₁
          have heq₂ := heldLock_spec hdb₂
          have hevents : operatorEvents db₂ = operatorEvents db := by
            rw [heq₂, heq₁]
            rfl
          exact (silent_addEvent rfl db₂).trans hevents

/-- `finish` adds an event of its own, if it ends the Task. -/
theorem writes_finish {record : CleanupRow} : (FailureStore.finish record).Writes Silent := by
  unfold Stores.FailureStore.finish
  split_ifs
  · trivial
  · refine writes_fenced fun row r => ?_
    dsimp only
    split
    · trivial
    · split_ifs
      · trivial
      · intro db
        refine Txn.Writes.lockEach fun requests db => Txn.Writes.lockEach fun locks => ?_
        refine writes_save fun db => ?_
        show operatorEvents (settle record.taskId row _ db) = operatorEvents db
        unfold settle
        split_ifs
        · rfl
        · exact silent_addEvent rfl _

/-- The recovery adds no event of an operator. -/
theorem recovery_writes {op : Op} (hop : isRecovery op = true) :
    (op.program D.settings).Writes Silent := by
  cases op with
  | ensure taskId sessionId source reason executionId now => exact writes_ensure
  -- A row is claimed, deferred, bound and confirmed without an event.
  | claimCleanup taskId maxAttempts now delay =>
    refine writes_required fun row => ?_
    split_ifs
    · trivial
    · exact writes_save fun db => rfl
  | deferCleanup taskId now delay =>
    refine writes_required fun row => ?_
    split_ifs
    · trivial
    · exact writes_save fun db => rfl
  | fenced claim record write =>
    cases write with
    | bindExecution executionId =>
      refine writes_fenced fun row => ?_
      split_ifs
      · trivial
      · intro r
        dsimp only
        split
        · trivial
        · split_ifs
          · trivial
          · intro r
            dsimp only
            split
            · trivial
            · split_ifs
              · trivial
              · exact writes_save fun db => rfl
    | confirm executionId status message =>
      show (FailureStore.confirm record executionId status message).Writes Silent
      unfold FailureStore.confirm
      split_ifs
      · trivial
      · exact writes_fenced fun row => writes_save fun db => rfl
    | defer error now delay blocked => exact writes_fenced fun row => writes_save fun db => rfl
    | finish => exact writes_finish
  | accept | claimRequest | finishRequest | resolveApplied | deferRequest | retryBlocked
  | updateStatus | recordInterrupt | clearInterrupt | commitMessage | lockSession | project
  | binding | terminal => cases hop

/-- So does every call that it makes. -/
theorem recover_silent {op : Op} (hop : isRecovery op = true) (db : Db) :
    operatorEvents ((op.program D.settings).exec Db.row db).2 = operatorEvents db := by
  rcases (recovery_writes (D := D) hop).exec db with h | h
  · exact congrArg operatorEvents h
  · exact h

end Writes

/-! ## The steps of the system -/

/-- The request is at work on its cleanup. -/
def Phase.isOpen : Phase → Bool
  | .executing _ | .executed _ => true
  | .answered .. | .raised _ | .lost => false

/-- The action moves the request. -/
def Action.moves (i : ℕ) : Action → Prop
  | .execute j | .read j | .lose j => j = i
  | _ => False

/-- What the steps do. -/
inductive Moves (D : Desk) (s : State) : Action → State → Prop
  | recovered {op : Op} (hop : isRecovery op = true) :
      Moves D s (.recover op) { s with db := ((op.program D.settings).exec Db.row s.db).2 }
  | elsewhere {other : Db} {events : List TaskEvent} :
      Moves D s (.others other events) { s with db := elsewhere s.db other events }
  | requested {r : Request} {now : Time} {phase : Phase} {db : Db} {applied : Bool}
      (h : Began D r now s.db (phase, db, applied)) :
      Moves D s (.request r now)
        { s with
          db
          requests := s.requests ++ [⟨r, phase⟩]
          applied := if applied then s.applied ++ [s.requests.length] else s.applied }
  | went {a : Action} {i : ℕ} {c : Call} {phase : Phase} (executed : List ℕ) (ha : a.moves i)
      (hc : s.requests[i]? = some c) (hopen : c.phase.isOpen = true)
      (hphase : ∀ replayed, phase ≠ .executing replayed)
      (hexecuted : executed = s.executed ∨
        executed = s.executed ++ [i] ∧ ∃ replayed, c.phase = .executing replayed) :
      Moves D s a { s.put i c phase with executed }

/-- Where a request ends, it is not at work. -/
theorem finish_ne_executing (action : OperatorAction) (row : CleanupRow) (replayed b : Bool) :
    finish action row replayed ≠ .executing b := by
  intro h
  unfold finish at h
  split_ifs at h

/-- Every step is one of these. -/
theorem step_moves {a : Action} (h : step D s a = some s') : Moves D s a s' := by
  cases a with
  | recover op =>
    unfold step at h
    dsimp only at h
    split_ifs at h with hop
    obtain rfl := Option.some.inj h
    exact .recovered hop
  | others other events =>
    obtain rfl := Option.some.inj h
    exact .elsewhere
  | request r now =>
    obtain rfl := Option.some.inj h
    exact .requested (begin_began D r now s.db)
  | execute i =>
    obtain ⟨c, hc, h⟩ := Option.bind_eq_some_iff.mp h
    split at h
    · rename_i replayed hphase
      obtain rfl := Option.some.inj h
      exact .went _ rfl hc (by rw [hphase]; rfl) nofun (.inr ⟨rfl, replayed, hphase⟩)
    · cases h
  | read i =>
    obtain ⟨c, hc, h⟩ := Option.bind_eq_some_iff.mp h
    split at h
    · rename_i replayed hphase
      obtain rfl := Option.some.inj h
      -- What is read at the end decides the answer.
      refine .went s.executed rfl hc (by rw [hphase]; rfl) (fun b => ?_) (.inl rfl)
      split
      · nofun
      · exact finish_ne_executing _ _ _ _
    · cases h
  | lose i =>
    obtain ⟨c, hc, h⟩ := Option.bind_eq_some_iff.mp h
    split at h
    · rename_i replayed hphase
      obtain rfl := Option.some.inj h
      exact .went s.executed rfl hc (by rw [hphase]; rfl) nofun (.inl rfl)
    · rename_i replayed hphase
      obtain rfl := Option.some.inj h
      exact .went s.executed rfl hc (by rw [hphase]; rfl) nofun (.inl rfl)
    · cases h

/-! ## What every run keeps -/

/-- A request that is applied writes to its own cleanup. -/
theorem get_appliedTo (hrow : db.cleanups.get r.taskId = some row) (id : Uuid) :
    (appliedTo D r now db row).cleanups.get id =
      if id = r.taskId then some (Stores.FailureStore.retried row (r.operation D) now)
      else db.cleanups.get id := by
  unfold appliedTo Stores.Db.addEvent Stores.Db.putCleanup
  dsimp only
  rw [Table.get_modifyAt]
  split_ifs with hid
  · rw [hid, hrow]
    rfl
  · rfl

/-- The row of a cleanup after a request: that of before, or the one that the request leaves. -/
theorem Began.rows {phase : Phase} {db' : Db} {applied : Bool}
    (h : Began D r now db (phase, db', applied)) {id : Uuid}
    (hrow : db.cleanups.get id = some row) :
    ∃ row', db'.cleanups.get id = some row' ∧ row.version ≤ row'.version := by
  cases h with
  | @applied row₀ hactor hrow₀ hlast hawaits =>
    by_cases hid : id = r.taskId
    · subst hid
      obtain rfl := Option.some.inj (hrow₀.symm.trans hrow)
      exact ⟨_, (get_appliedTo hrow₀ _).trans (if_pos rfl), Nat.le_succ _⟩
    · exact ⟨row, (get_appliedTo hrow₀ id).trans ((if_neg hid).trans hrow), le_rfl⟩
  | forbidden => exact ⟨row, hrow, le_rfl⟩
  | unknown => exact ⟨row, hrow, le_rfl⟩
  | replayed => exact ⟨row, hrow, le_rfl⟩
  | reused => exact ⟨row, hrow, le_rfl⟩
  | refused => exact ⟨row, hrow, le_rfl⟩

/-- Cleanups are never dropped, and their versions never decrease. -/
theorem Moves.rows {a : Action} (h : Moves D s a s') {id : Uuid}
    (hrow : s.db.cleanups.get id = some row) :
    ∃ row', s'.db.cleanups.get id = some row' ∧ row.version ≤ row'.version := by
  cases h with
  | recovered hop =>
    obtain ⟨row', hrow', hrecovers⟩ := recover_rows (D := D) hop hrow
    exact ⟨row', hrow', hrecovers.version⟩
  | elsewhere => exact ⟨row, hrow, le_rfl⟩
  | requested h => exact h.rows hrow
  | went executed ha hc hopen hphase hexecuted => exact ⟨row, hrow, le_rfl⟩

/-- Every request stays what it was. -/
theorem Moves.requests {a : Action} (h : Moves D s a s') {i : ℕ} {c : Call}
    (hc : s.requests[i]? = some c) :
    ∃ c', s'.requests[i]? = some c' ∧ c'.request = c.request := by
  cases h with
  | recovered => exact ⟨c, hc, rfl⟩
  | elsewhere => exact ⟨c, hc, rfl⟩
  | requested h =>
    exact ⟨c, (List.getElem?_append_left (List.getElem?_eq_some_iff.mp hc).1).trans hc, rfl⟩
  | @went a j c₀ phase executed ha hc₀ hopen hphase hexecuted =>
    by_cases hij : j = i
    · subst hij
      obtain rfl := Option.some.inj (hc₀.symm.trans hc)
      exact ⟨_, List.getElem?_set_self (List.getElem?_eq_some_iff.mp hc).1, rfl⟩
    · exact ⟨c, (List.getElem?_set_ne hij).trans hc, rfl⟩

/-- What holds in every run: an applied operation is older than its cleanup, and added one event. -/
structure Inv (s : State) : Prop where
  applied : ∀ i ∈ s.applied, ∃ c row, s.requests[i]? = some c ∧
    s.db.cleanups.get c.request.taskId = some row ∧ c.request.input.expectedVersion < row.version
  executed : ∀ i ∈ s.executed, i < s.requests.length
  events : (operatorEvents s.db).length = s.applied.length

/-- The event of a request that is applied. -/
theorem operatorEvents_appliedTo :
    operatorEvents (appliedTo D r now db row) = operatorEvents db ++
      [.failureCleanupOperatorRequested r.taskId
        { r.operation D with reason := Stores.clip r.input.reason } row.lastError
        (row.version + 1)] := by
  unfold operatorEvents appliedTo Stores.Db.addEvent Stores.Db.putCleanup
  dsimp only
  rw [List.filter_append]
  rfl

/-- The other services add no event of an operator. -/
theorem operatorEvents_elsewhere (db other : Db) (events : List TaskEvent) :
    operatorEvents (elsewhere db other events) = operatorEvents db := by
  unfold operatorEvents elsewhere
  dsimp only
  rw [List.filter_append, List.filter_filter]
  simp

/-- The invariant is kept. -/
theorem Inv.step {a : Action} (hinv : Inv s) (h : Moves D s a s') : Inv s' := by
  -- The row of an applied request has moved past the version it expected.
  have hold : ∀ i ∈ s.applied, ∃ c row, s'.requests[i]? = some c ∧
      s'.db.cleanups.get c.request.taskId = some row ∧
      c.request.input.expectedVersion < row.version := by
    intro i hi
    obtain ⟨c, row, hc, hrow, hlt⟩ := hinv.applied i hi
    obtain ⟨c', hc', hsame⟩ := h.requests hc
    obtain ⟨row', hrow', hle⟩ := h.rows hrow
    rw [← hsame] at hrow' hlt
    exact ⟨c', row', hc', hrow', hlt.trans_le hle⟩
  cases h with
  | recovered hop =>
    exact ⟨hold, hinv.executed, (congrArg _ (recover_silent hop s.db)).trans hinv.events⟩
  | elsewhere =>
    exact ⟨hold, hinv.executed, (congrArg _ (operatorEvents_elsewhere _ _ _)).trans hinv.events⟩
  -- A new request is applied, or changes nothing.
  | @requested r now phase db applied h =>
    have hexecuted : ∀ i ∈ s.executed, i < (s.requests ++ [(⟨r, phase⟩ : Call)]).length := by
      intro i hi
      rw [List.length_append]
      exact Nat.lt_add_right _ (hinv.executed i hi)
    cases h with
    | @applied row hactor hrow hlast hawaits =>
      refine ⟨fun i hi => ?_, hexecuted, ?_⟩
      · rcases List.mem_append.mp hi with hi | hi
        · exact hold i hi
        · obtain rfl := List.mem_singleton.mp hi
          refine ⟨_, Stores.FailureStore.retried row (r.operation D) now,
            List.getElem?_concat_length, (get_appliedTo hrow _).trans (if_pos rfl), ?_⟩
          exact Nat.lt_succ_of_le hawaits.2.ge
      · simp only [if_true]
        rw [operatorEvents_appliedTo, List.length_append, List.length_append, hinv.events]
        rfl
    | forbidden => exact ⟨hold, hexecuted, hinv.events⟩
    | unknown => exact ⟨hold, hexecuted, hinv.events⟩
    | replayed => exact ⟨hold, hexecuted, hinv.events⟩
    | reused => exact ⟨hold, hexecuted, hinv.events⟩
    | refused => exact ⟨hold, hexecuted, hinv.events⟩
  -- A request that goes on changes its phase alone.
  | @went a i c phase executed ha hc hopen hphase hexecuted =>
    refine ⟨hold, fun j hj => ?_, hinv.events⟩
    have hlength : (s.requests.set i { c with phase }).length = s.requests.length := List.length_set
    show j < (s.requests.set i { c with phase }).length
    rw [hlength]
    rcases hexecuted with rfl | ⟨rfl, -⟩
    · exact hinv.executed j hj
    · rcases List.mem_append.mp hj with hj | hj
      · exact hinv.executed j hj
      · rw [List.mem_singleton.mp hj]
        exact (List.getElem?_eq_some_iff.mp hc).1

/-- The invariant holds in every run. -/
theorem inv_reachable (hr : (machine D).Reachable s) : Inv s := by
  refine hr.invariant (fun s hs => ?_) fun s a s' _ hinv hstep => hinv.step (step_moves hstep)
  obtain ⟨db, -, hevents, rfl⟩ := hs
  refine ⟨fun i hi => absurd hi List.not_mem_nil, fun i hi => absurd hi List.not_mem_nil, ?_⟩
  rw [hevents]
  rfl

/-! ## Idempotency -/

/-- The request has called `execute`, or is about to. -/
def Works (s : State) (i : ℕ) : Prop :=
  i ∈ s.executed ∨ ∃ c replayed, s.requests[i]? = some c ∧ c.phase = .executing replayed

/-- The requests of a run are idempotent: each key of an operator and a Task takes its cleanup out
of `BLOCKED` at most once, an operation that was applied is neither applied nor executed when it is
sent again, and its key is refused with any other content. -/
structure Idempotent (s : State) : Prop where
  once : ∀ i ∈ s.applied, ∀ j ∈ s.applied, ∀ c c', s.requests[i]? = some c →
    s.requests[j]? = some c' → c'.request.key = c.request.key → j = i
  resent : ∀ i ∈ s.applied, ∀ (j : ℕ) (c c' : Call), i < j → s.requests[i]? = some c →
    s.requests[j]? = some c' → c'.request = c.request → j ∉ s.applied ∧ ¬Works s j
  refused : ∀ i ∈ s.applied, ∀ (j : ℕ) (c c' : Call), i < j → s.requests[i]? = some c →
    s.requests[j]? = some c' → c'.request.key = c.request.key → c'.request ≠ c.request →
    ∃ error, c'.phase = .raised error

/-- A request of an operator whose key was applied before meets its cleanup in one of these states.
When another operation was applied since, the cleanup is not blocked or has another version than the
request expects. When its operation is still the last one, it is a `FINALIZE` sent unchanged only if
the cleanup is not `PENDING`; and if it has other content, its hash differs, or it is a `FINALIZE`
of a cleanup that is blocked again. -/
def Regular (D : Desk) (s : State) : Action → Prop
  | .request r _ => r.actor ∈ D.operators → ∀ row, s.db.cleanups.get r.taskId = some row →
    ∀ i ∈ s.applied, ∀ c, s.requests[i]? = some c → c.request.key = r.key →
      (¬IsLast D r row → ¬Awaits r row) ∧
      (IsLast D r row → SameHash D r row →
        if c.request = r then ¬(r.action = .finalize ∧ row.state = .pending)
        else r.action = .finalize ∧ row.state = .blocked)
  | _ => True

instance (D : Desk) (s : State) (a : Action) : Decidable (Regular D s a) :=
  match a with
  | .request r _ => inferInstanceAs (Decidable (r.actor ∈ D.operators →
      ∀ row ∈ s.db.cleanups.get r.taskId, ∀ i ∈ s.applied, ∀ c ∈ s.requests[i]?,
        c.request.key = r.key →
          (¬IsLast D r row → ¬Awaits r row) ∧
          (IsLast D r row → SameHash D r row →
            if c.request = r then ¬(r.action = .finalize ∧ row.state = .pending)
            else r.action = .finalize ∧ row.state = .blocked)))
  | .recover _ | .others _ _ | .execute _ | .read _ | .lose _ => .isTrue trivial

/-- A request that goes on stays the request it was, and one that has raised is left alone. -/
theorem of_getElem?_put {i j : ℕ} {c c' : Call} {phase : Phase} (hc : s.requests[i]? = some c)
    (hopen : c.phase.isOpen = true) (hc' : (s.put i c phase).requests[j]? = some c') :
    ∃ c₀, s.requests[j]? = some c₀ ∧ c'.request = c₀.request ∧
      ((∃ error, c₀.phase = .raised error) → c' = c₀) ∧ (c' = c₀ ∨ c'.phase = phase) := by
  by_cases hij : i = j
  · subst hij
    have hset : (s.put i c phase).requests[i]? = some { c with phase } :=
      List.getElem?_set_self (List.getElem?_eq_some_iff.mp hc).1
    obtain rfl := Option.some.inj (hset.symm.trans hc')
    refine ⟨c, hc, rfl, ?_, .inr rfl⟩
    rintro ⟨error, herror⟩
    rw [herror] at hopen
    cases hopen
  · have hset : (s.put i c phase).requests[j]? = s.requests[j]? := List.getElem?_set_ne hij
    exact ⟨c', hset.symm.trans hc', rfl, fun _ => rfl, .inl rfl⟩

/-- A request that goes on starts no work. -/
theorem works_put {i j : ℕ} {c : Call} {phase : Phase} {executed : List ℕ}
    (hc : s.requests[i]? = some c) (hopen : c.phase.isOpen = true)
    (hphase : ∀ replayed, phase ≠ .executing replayed)
    (hexecuted : executed = s.executed ∨
      executed = s.executed ++ [i] ∧ ∃ replayed, c.phase = .executing replayed)
    (h : Works { s.put i c phase with executed } j) : Works s j := by
  rcases h with h | ⟨c', replayed, hc', hworks⟩
  · rcases hexecuted with rfl | ⟨rfl, replayed, hreplayed⟩
    · exact .inl h
    · rcases List.mem_append.mp h with h | h
      · exact .inl h
      · rw [List.mem_singleton.mp h]
        exact .inr ⟨c, replayed, hc, hreplayed⟩
  · obtain ⟨c₀, hc₀, -, -, rfl | hnew⟩ := of_getElem?_put hc hopen hc'
    · exact .inr ⟨c', replayed, hc₀, hworks⟩
    · exact absurd (hnew.symm.trans hworks) (hphase replayed)

/-- Steps other than new requests keep requests idempotent. -/
theorem Idempotent.went {i : ℕ} {c : Call} {phase : Phase} {executed : List ℕ} (h : Idempotent s)
    (hc : s.requests[i]? = some c) (hopen : c.phase.isOpen = true)
    (hphase : ∀ replayed, phase ≠ .executing replayed)
    (hexecuted : executed = s.executed ∨
      executed = s.executed ++ [i] ∧ ∃ replayed, c.phase = .executing replayed) :
    Idempotent { s.put i c phase with executed } := by
  constructor
  · intro j hj k hk d d' hd hd' hkey
    obtain ⟨d₀, hd₀, hsame, -⟩ := of_getElem?_put hc hopen hd
    obtain ⟨d₀', hd₀', hsame', -⟩ := of_getElem?_put hc hopen hd'
    rw [hsame, hsame'] at hkey
    exact h.once j hj k hk d₀ d₀' hd₀ hd₀' hkey
  · intro j hj k d d' hlt hd hd' heq
    obtain ⟨d₀, hd₀, hsame, -⟩ := of_getElem?_put hc hopen hd
    obtain ⟨d₀', hd₀', hsame', -⟩ := of_getElem?_put hc hopen hd'
    rw [hsame, hsame'] at heq
    obtain ⟨hnot, hidle⟩ := h.resent j hj k d₀ d₀' hlt hd₀ hd₀' heq
    exact ⟨hnot, fun hworks => hidle (works_put hc hopen hphase hexecuted hworks)⟩
  · intro j hj k d d' hlt hd hd' hkey hne
    obtain ⟨d₀, hd₀, hsame, -⟩ := of_getElem?_put hc hopen hd
    obtain ⟨d₀', hd₀', hsame', hraised, -⟩ := of_getElem?_put hc hopen hd'
    rw [hsame, hsame'] at hkey hne
    have herror := h.refused j hj k d₀ d₀' hlt hd₀ hd₀' hkey hne
    rw [hraised herror]
    exact herror

/-- A request that is not in the list yet has done nothing. -/
theorem Inv.not_works (hinv : Inv s) {phase : Phase} {db' : Db} {applied : List ℕ}
    (hphase : ∀ replayed, phase ≠ .executing replayed) :
    ¬Works ⟨db', s.requests ++ [⟨r, phase⟩], applied, s.executed⟩ s.requests.length := by
  rintro (h | ⟨c, replayed, hc, hworks⟩)
  · exact absurd (hinv.executed _ h) (lt_irrefl _)
  · obtain rfl := Option.some.inj (List.getElem?_concat_length.symm.trans hc)
    exact hphase replayed hworks

/-- The indices of the applied requests are those of requests. -/
theorem Inv.applied_lt (hinv : Inv s) {i : ℕ} (hi : i ∈ s.applied) : i < s.requests.length := by
  obtain ⟨c, row, hc, -⟩ := hinv.applied i hi
  exact (List.getElem?_eq_some_iff.mp hc).1

/-- A new request that is not applied keeps requests idempotent, when it does not work for an
operation that was applied before and raises for another content. -/
theorem Idempotent.passed {phase : Phase} {db' : Db} (h : Idempotent s) (hinv : Inv s)
    (hsame : ∀ i ∈ s.applied, ∀ c, s.requests[i]? = some c → c.request = r →
      ∀ replayed, phase ≠ .executing replayed)
    (hother : ∀ i ∈ s.applied, ∀ c, s.requests[i]? = some c → c.request.key = r.key →
      c.request ≠ r → ∃ error, phase = .raised error) :
    Idempotent ⟨db', s.requests ++ [⟨r, phase⟩], s.applied, s.executed⟩ := by
  -- An applied request is an old one.
  have hold : ∀ i ∈ s.applied, ∀ c, (s.requests ++ [⟨r, phase⟩])[i]? = some c →
      s.requests[i]? = some c := fun i hi c hc =>
    (List.getElem?_append_left (hinv.applied_lt hi)).symm.trans hc
  have hworks : ∀ j, j < s.requests.length →
      Works ⟨db', s.requests ++ [⟨r, phase⟩], s.applied, s.executed⟩ j → Works s j := by
    rintro j hj (h | ⟨c, replayed, hc, hc'⟩)
    · exact .inl h
    · exact .inr ⟨c, replayed, (List.getElem?_append_left hj).symm.trans hc, hc'⟩
  constructor
  · intro i hi j hj c c' hc hc'
    exact h.once i hi j hj c c' (hold i hi c hc) (hold j hj c' hc')
  · intro i hi j c c' hlt hc hc' heq
    rcases of_getElem?_concat hc' with hc' | ⟨rfl, rfl⟩
    · obtain ⟨hnot, hidle⟩ := h.resent i hi j c c' hlt (hold i hi c hc) hc' heq
      exact ⟨hnot, fun hw => hidle (hworks j (List.getElem?_eq_some_iff.mp hc').1 hw)⟩
    · refine ⟨fun hj => absurd (hinv.applied_lt hj) (lt_irrefl _), ?_⟩
      exact hinv.not_works (hsame i hi c (hold i hi c hc) heq.symm)
  · intro i hi j c c' hlt hc hc' hkey hne
    rcases of_getElem?_concat hc' with hc' | ⟨rfl, rfl⟩
    · exact h.refused i hi j c c' hlt (hold i hi c hc) hc' hkey hne
    · exact hother i hi c (hold i hi c hc) hkey.symm hne.symm

/-- A new request that is applied keeps requests idempotent, when its key is new. -/
theorem Idempotent.applied {phase : Phase} {db' : Db} (h : Idempotent s) (hinv : Inv s)
    (hnew : ∀ i ∈ s.applied, ∀ c, s.requests[i]? = some c → c.request.key ≠ r.key) :
    Idempotent ⟨db', s.requests ++ [⟨r, phase⟩], s.applied ++ [s.requests.length], s.executed⟩ := by
  -- The new request comes last, and the ones before are where they were.
  have hold : ∀ i ∈ s.applied, ∀ c, (s.requests ++ [⟨r, phase⟩])[i]? = some c →
      s.requests[i]? = some c := fun i hi c hc =>
    (List.getElem?_append_left (hinv.applied_lt hi)).symm.trans hc
  have hlast : ∀ c, (s.requests ++ [⟨r, phase⟩])[s.requests.length]? = some c → c = ⟨r, phase⟩ :=
    fun c hc => (Option.some.inj (List.getElem?_concat_length.symm.trans hc)).symm
  have hbefore : ∀ i ∈ s.applied ++ [s.requests.length], ∀ (j : ℕ) (c : Call), i < j →
      (s.requests ++ [⟨r, phase⟩])[j]? = some c → i ∈ s.applied := by
    intro i hi j c hlt hc
    rcases List.mem_append.mp hi with hi | hi
    · exact hi
    · rw [List.mem_singleton.mp hi] at hlt
      have hj := (List.getElem?_eq_some_iff.mp hc).1
      rw [List.length_append, List.length_singleton] at hj
      exact absurd hj (not_lt.mpr hlt)
  constructor
  · -- Two applied requests with one key are one: the new one has a new key.
    intro i hi j hj c c' hc hc' hkey
    rcases List.mem_append.mp hi with hi | hi
    · rcases List.mem_append.mp hj with hj | hj
      · exact h.once i hi j hj c c' (hold i hi c hc) (hold j hj c' hc') hkey
      · obtain rfl := List.mem_singleton.mp hj
        rw [hlast c' hc'] at hkey
        exact absurd hkey.symm (hnew i hi c (hold i hi c hc))
    · obtain rfl := List.mem_singleton.mp hi
      rcases List.mem_append.mp hj with hj | hj
      · rw [hlast c hc] at hkey
        exact absurd hkey (hnew j hj c' (hold j hj c' hc'))
      · exact List.mem_singleton.mp hj
  · -- A request that is sent again is not applied, also when it comes after the new one.
    intro i hi j c c' hlt hc hc' heq
    have hi := hbefore i hi j c' hlt hc'
    rcases of_getElem?_concat hc' with hc' | ⟨rfl, rfl⟩
    · obtain ⟨hnot, hidle⟩ := h.resent i hi j c c' hlt (hold i hi c hc) hc' heq
      have hj := (List.getElem?_eq_some_iff.mp hc').1
      refine ⟨fun hj' => ?_, ?_⟩
      · rcases List.mem_append.mp hj' with hj' | hj'
        · exact hnot hj'
        · exact absurd (List.mem_singleton.mp hj') hj.ne
      · rintro (hw | ⟨d, replayed, hd, hd'⟩)
        · exact hidle (.inl hw)
        · exact hidle (.inr ⟨d, replayed, (List.getElem?_append_left hj).symm.trans hd, hd'⟩)
    · exact absurd (congrArg Request.key heq.symm) (hnew i hi c (hold i hi c hc))
  · intro i hi j c c' hlt hc hc' hkey hne
    have hi := hbefore i hi j c' hlt hc'
    rcases of_getElem?_concat hc' with hc' | ⟨rfl, rfl⟩
    · exact h.refused i hi j c c' hlt (hold i hi c hc) hc' hkey hne
    · exact absurd hkey.symm (hnew i hi c (hold i hi c hc))

/-- A replay works on the cleanup when it is a `FINALIZE` of a pending one. -/
theorem afterStore_executing {action : OperatorAction} {replayed b : Bool}
    (h : afterStore action row replayed = .executing b) :
    action = .finalize ∧ row.state = .pending := by
  unfold afterStore at h
  split_ifs at h with hworks
  · exact hworks
  · exact absurd h (finish_ne_executing _ _ _ _)

/-- It raises when it is a `FINALIZE` of a blocked one. -/
theorem afterStore_raised_iff {action : OperatorAction} {replayed : Bool} :
    (∃ error, afterStore action row replayed = .raised error) ↔
      action = .finalize ∧ row.state = .blocked := by
  unfold afterStore finish
  cases action with
  | retry => simp
  | finalize =>
    cases hstate : row.state with
    | pending => simp
    | blocked => simp
    | done => simp

/-- A request in a regular state keeps requests idempotent. -/
theorem Idempotent.requested {phase : Phase} {db' : Db} {applied : Bool} (h : Idempotent s)
    (hinv : Inv s) (hbegan : Began D r now s.db (phase, db', applied))
    (hregular : Regular D s (.request r now)) :
    Idempotent ⟨db', s.requests ++ [⟨r, phase⟩],
      if applied then s.applied ++ [s.requests.length] else s.applied, s.executed⟩ := by
  cases hbegan with
  | forbidden => exact h.passed hinv (fun _ _ _ _ _ => nofun) fun _ _ _ _ _ _ => ⟨_, rfl⟩
  | unknown => exact h.passed hinv (fun _ _ _ _ _ => nofun) fun _ _ _ _ _ _ => ⟨_, rfl⟩
  | reused => exact h.passed hinv (fun _ _ _ _ _ => nofun) fun _ _ _ _ _ _ => ⟨_, rfl⟩
  | refused => exact h.passed hinv (fun _ _ _ _ _ => nofun) fun _ _ _ _ _ _ => ⟨_, rfl⟩
  | @replayed row hactor hrow hlast hhash =>
    refine h.passed hinv (fun i hi c hc heq b hb => ?_) fun i hi c hc hkey hne => ?_
    · have hstate := (hregular hactor row hrow i hi c hc (congrArg Request.key heq)).2 hlast hhash
      rw [if_pos heq] at hstate
      exact hstate (afterStore_executing hb)
    · have hstate := (hregular hactor row hrow i hi c hc hkey).2 hlast hhash
      rw [if_neg hne] at hstate
      exact afterStore_raised_iff.mpr hstate
  | @applied row hactor hrow hlast hawaits =>
    refine h.applied hinv fun i hi c hc hkey => ?_
    exact (hregular hactor row hrow i hi c hc hkey).1 hlast hawaits

/-- Steps in regular states keep requests idempotent. -/
theorem Idempotent.step {a : Action} (h : Idempotent s) (hinv : Inv s) (hmove : Moves D s a s')
    (hregular : Regular D s a) : Idempotent s' := by
  cases hmove with
  | recovered hop => exact ⟨h.once, h.resent, h.refused⟩
  | elsewhere => exact ⟨h.once, h.resent, h.refused⟩
  | requested hbegan => exact h.requested hinv hbegan hregular
  | went executed ha hc hopen hphase hexecuted => exact h.went hc hopen hphase hexecuted

/-- A step that keeps requests idempotent was made in a regular state. -/
theorem Idempotent.regular {a : Action} (h : Idempotent s') (hinv : Inv s)
    (hmove : Moves D s a s') :
    Regular D s a := by
  cases hmove with
  | recovered hop => trivial
  | elsewhere => trivial
  | @went a i c phase executed ha hc hopen hphase hexecuted =>
    cases a with
    | request => exact ha.elim
    | recover | others | execute | read | lose => trivial
  | @requested r now phase db applied hbegan =>
    intro hactor row hrow i hi c hc hkey
    have hi' : i < s.requests.length := hinv.applied_lt hi
    have hc' : (s.requests ++ [(⟨r, phase⟩ : Call)])[i]? = some c :=
      (List.getElem?_append_left hi').trans hc
    have hn : (s.requests ++ [(⟨r, phase⟩ : Call)])[s.requests.length]? = some ⟨r, phase⟩ :=
      List.getElem?_concat_length
    cases hbegan with
    | forbidden hnot => exact absurd hactor hnot
    | unknown _ hnone => exact absurd (hnone.symm.trans hrow) nofun
    -- An equal request is answered again and does nothing; a different one is refused.
    | replayed _ hrow₀ hlast hhash =>
      obtain rfl := Option.some.inj (hrow₀.symm.trans hrow)
      refine ⟨fun hnot => absurd hlast hnot, fun _ _ => ?_⟩
      split_ifs with heq
      · intro hworks
        have hphase : afterStore r.action _ true = .executing true := if_pos hworks
        exact (h.resent i hi _ c _ hi' hc' hn heq.symm).2 (.inr ⟨_, true, hn, hphase⟩)
      · exact afterStore_raised_iff.mp
          (h.refused i hi _ c _ hi' hc' hn hkey.symm fun he => heq he.symm)
    | reused _ hrow₀ hlast hhash =>
      obtain rfl := Option.some.inj (hrow₀.symm.trans hrow)
      exact ⟨fun hnot => absurd hlast hnot, fun _ hsame => absurd hsame hhash⟩
    | refused _ hrow₀ hlast hawaits =>
      obtain rfl := Option.some.inj (hrow₀.symm.trans hrow)
      exact ⟨fun _ => hawaits, fun hl => absurd hl hlast⟩
    -- Two applied requests with one key would be the same one.
    | applied _ hrow₀ hlast hawaits =>
      obtain rfl := Option.some.inj (hrow₀.symm.trans hrow)
      refine ⟨fun _ _ => ?_, fun hl => absurd hl hlast⟩
      have hsame := h.once i (List.mem_append_left _ hi) s.requests.length
        (List.mem_append_right _ (List.mem_singleton_self _)) c _ hc' hn hkey.symm
      exact absurd hsame hi'.ne'

/-- Requests are idempotent in every run whose requests meet regular states. -/
theorem idempotent_reachable (hr : (machine D).ReachableWhen (Regular D) s) : Idempotent s := by
  refine hr.invariant (fun s hs => ?_) fun s a s' hr h hregular hstep => ?_
  · obtain ⟨db, -, -, rfl⟩ := hs
    exact ⟨fun i hi => absurd hi List.not_mem_nil, fun i hi => absurd hi List.not_mem_nil,
      fun i hi => absurd hi List.not_mem_nil⟩
  · exact h.step (inv_reachable hr.reachable) (step_moves hstep) hregular

/-! ## Keys of requests that were refused -/

/-- A key is refused with any other content than that of an earlier request, applied or not. -/
def RefusesOther (s : State) : Prop :=
  ∀ (i j : ℕ) (c c' : Call), i < j → s.requests[i]? = some c → s.requests[j]? = some c' →
    c'.request.key = c.request.key → c'.request ≠ c.request → ∃ error, c'.phase = .raised error

/-- A request of an operator with the key of an earlier request and other content meets its cleanup
in one of these states: its operation is not the last one, and the cleanup is not blocked or has
another version than it expects; or it is the last one, and its hash differs, or it is a `FINALIZE`
of a cleanup that is blocked again. -/
def NewKeys (D : Desk) (s : State) : Action → Prop
  | .request r _ => r.actor ∈ D.operators → ∀ row, s.db.cleanups.get r.taskId = some row →
    (∃ c ∈ s.requests, c.request.key = r.key ∧ c.request ≠ r) →
      (¬IsLast D r row → ¬Awaits r row) ∧
      (IsLast D r row → SameHash D r row → r.action = .finalize ∧ row.state = .blocked)
  | _ => True

/-- A request with an old key and other content raises. -/
theorem Began.raised {phase : Phase} {db' : Db} {applied : Bool}
    (h : Began D r now s.db (phase, db', applied)) (hnew : NewKeys D s (.request r now))
    (hold : ∃ c ∈ s.requests, c.request.key = r.key ∧ c.request ≠ r) :
    ∃ error, phase = .raised error := by
  cases h with
  | forbidden => exact ⟨_, rfl⟩
  | unknown => exact ⟨_, rfl⟩
  | reused => exact ⟨_, rfl⟩
  | refused => exact ⟨_, rfl⟩
  | @replayed row hactor hrow hlast hhash =>
    exact afterStore_raised_iff.mpr ((hnew hactor row hrow hold).2 hlast hhash)
  | @applied row hactor hrow hlast hawaits =>
    exact absurd hawaits ((hnew hactor row hrow hold).1 hlast)

/-- Keys are refused with other contents in every run whose requests meet such states. -/
theorem refusesOther_reachable (hr : (machine D).ReachableWhen (NewKeys D) s) : RefusesOther s := by
  refine hr.invariant (fun s hs => ?_) fun s a s' hr h hnew hstep => ?_
  · obtain ⟨db, -, -, rfl⟩ := hs
    exact fun i j c c' _ hc => absurd (hc.symm.trans List.getElem?_nil) nofun
  · cases step_moves hstep with
    | recovered hop => exact h
    | elsewhere => exact h
    | requested hbegan =>
      intro i j c c' hlt hc hc' hkey hne
      rcases of_getElem?_concat hc with hc | ⟨rfl, rfl⟩
      · rcases of_getElem?_concat hc' with hc' | ⟨rfl, rfl⟩
        · exact h i j c c' hlt hc hc' hkey hne
        · exact hbegan.raised hnew ⟨c, List.mem_of_getElem? hc, hkey.symm, hne.symm⟩
      · have hj := (List.getElem?_eq_some_iff.mp hc').1
        rw [List.length_append, List.length_singleton] at hj
        exact absurd hj (not_lt.mpr hlt)
    | went executed ha hc₀ hopen hphase hexecuted =>
      intro i j c c' hlt hc hc' hkey hne
      obtain ⟨d, hd, hsame, -⟩ := of_getElem?_put hc₀ hopen hc
      obtain ⟨d', hd', hsame', hraised, -⟩ := of_getElem?_put hc₀ hopen hc'
      rw [hsame, hsame'] at hkey hne
      have herror := h i j d d' hlt hd hd' hkey hne
      rw [hraised herror]
      exact herror

/-! ## The guarantees -/

/-- The step is a request that is applied: it takes a blocked cleanup out of `BLOCKED`, adds its
event and touches no other cleanup. -/
def Applies (D : Desk) (s : State) (a : Action) (s' : State) : Prop :=
  ∃ r now row phase, a = .request r now ∧ s.db.cleanups.get r.taskId = some row ∧
    row.state = .blocked ∧ s'.requests = s.requests ++ [⟨r, phase⟩] ∧
    s'.applied = s.applied ++ [s.requests.length] ∧
    operatorEvents s'.db = operatorEvents s.db ++
      [.failureCleanupOperatorRequested r.taskId
        { r.operation D with reason := Stores.clip r.input.reason } row.lastError
        (row.version + 1)] ∧
    ∀ id, id ≠ r.taskId → s'.db.cleanups.get id = s.db.cleanups.get id

/-- The step applies no request: it adds no event of an operator, takes no cleanup out of `BLOCKED`,
and if it is a request, it changes nothing. -/
def Passes (s : State) (a : Action) (s' : State) : Prop :=
  s'.applied = s.applied ∧ operatorEvents s'.db = operatorEvents s.db ∧
    (∀ id row, s.db.cleanups.get id = some row → row.state = .blocked →
      ∃ row', s'.db.cleanups.get id = some row' ∧ row'.state = .blocked) ∧
    ∀ r now, a = .request r now → s'.db = s.db

/-- A request whose row stays as it is passes. -/
theorem passes_of_same {a : Action} (happlied : s'.applied = s.applied) (hdb : s'.db = s.db) :
    Passes s a s' := by
  refine ⟨happlied, congrArg operatorEvents hdb, fun id row hrow hstate => ?_, fun _ _ _ => hdb⟩
  exact ⟨row, (congrArg (fun db : Db => db.cleanups.get id) hdb).trans hrow, hstate⟩

/-- Every step applies one request or none. -/
theorem Moves.applies_or_passes {a : Action} (h : Moves D s a s') :
    Applies D s a s' ∨ Passes s a s' := by
  cases h with
  | recovered hop =>
    refine .inr ⟨rfl, recover_silent hop s.db, fun id row hrow hstate => ?_, nofun⟩
    obtain ⟨row', hrow', hrecovers⟩ := recover_rows (D := D) hop hrow
    exact ⟨row', hrow', hrecovers.blocked hstate⟩
  | elsewhere =>
    exact .inr ⟨rfl, operatorEvents_elsewhere _ _ _, fun id row hrow hstate => ⟨row, hrow, hstate⟩,
      nofun⟩
  | went executed ha hc hopen hphase hexecuted => exact .inr (passes_of_same rfl rfl)
  | @requested r now phase db applied hbegan =>
    cases hbegan with
    | forbidden => exact .inr (passes_of_same rfl rfl)
    | unknown => exact .inr (passes_of_same rfl rfl)
    | replayed => exact .inr (passes_of_same rfl rfl)
    | reused => exact .inr (passes_of_same rfl rfl)
    | refused => exact .inr (passes_of_same rfl rfl)
    | @applied row hactor hrow hlast hawaits =>
      exact .inl ⟨r, now, row, _, rfl, hrow, hawaits.1, rfl, rfl, operatorEvents_appliedTo,
        fun id hid => (get_appliedTo hrow id).trans (if_neg hid)⟩

/-- **Operations of operators.** In every run a cleanup leaves `BLOCKED` by requests that are
applied alone, each of which adds one operator event, and every other request changes nothing. In
every run whose requests meet regular states, each key of an operator and a Task is applied at most
once, an operation that was applied is neither applied nor executed when it is sent again, and its
key is refused with any other content; the first request that does not meet such a state breaks
this. The keys of requests that were refused are refused with other contents, too, where no such
request meets a cleanup that awaits it. -/
theorem operations_idempotent (D : Desk) :
    (∀ (s : State) (a : Action) (s' : State), (machine D).Reachable s → step D s a = some s' →
      Applies D s a s' ∨ Passes s a s') ∧
    (∀ s : State, (machine D).ReachableWhen (Regular D) s →
      Idempotent s ∧ ∀ a s', step D s a = some s' → (Idempotent s' ↔ Regular D s a)) ∧
    ∀ s : State, (machine D).ReachableWhen (NewKeys D) s → RefusesOther s := by
  refine ⟨?_, ?_, fun s hr => refusesOther_reachable hr⟩
  · intro s a s' _ hstep
    exact (step_moves hstep).applies_or_passes
  · intro s hr
    have hinv := inv_reachable hr.reachable
    refine ⟨idempotent_reachable hr, fun a s' hstep => ⟨fun h => ?_, fun hregular => ?_⟩⟩
    · exact h.regular hinv (step_moves hstep)
    · exact (idempotent_reachable hr).step hinv (step_moves hstep) hregular

/-! ## Runs that are not idempotent -/

namespace Sample

/-- A digest without collisions: the number of the text in base 2²¹. -/
def digest (text : String) : ℕ := text.toList.foldl (fun n c => 2097152 * n + c.toNat) 1

/-- One operator. -/
def desk : Desk := ⟨["operator-1"], digest, digest, Stores.Sample.settings⟩

/-- The running Task 7 of session 1. -/
def task : Stores.TaskRow :=
  { userId := "user", projectId := "project", sessionId := 1, inputMessageId := 8
    userMessage := "analyse", status := .executing }

/-- Two attempts with a limit of one: the second finds the limit reached and blocks the cleanup. -/
def block : List Action := List.replicate 2 (.recover (.claimCleanup 7 1 0 0))

/-- An operation for Task 7. -/
def operation (action : OperatorAction) (key : String) (version : ℕ) : Request :=
  ⟨"operator-1", 7, action, ⟨key, version, "checked"⟩⟩

/-- The request for it. -/
def ask (action : OperatorAction) (key : String) (version : ℕ) : Action :=
  .request (operation action key version) 0

/-- The cleanup of Task 7 is opened and blocked, with version 3. -/
def opened : List Action :=
  .others { tasks := ⟨[(7, task)], by decide⟩ } [] ::
    .recover (.ensure 7 1 (.api 60) "failed" none 0) :: block

/-- A key is sent again, with the current version, after another operation. -/
def reuse : List Action :=
  opened ++ ask .retry "retry-1" 3 :: block ++ ask .retry "retry-2" 6 :: block ++
    [ask .retry "retry-1" 9]

/-- A `FINALIZE` is sent again while the cleanup is pending. -/
def resend : List Action :=
  opened ++ [ask .finalize "finalize-1" 3, .lose 0, ask .finalize "finalize-1" 3, .execute 1]

/-- A request is sent again, and then with another action. -/
def kept : List Action :=
  opened ++ [ask .retry "retry-1" 3, ask .retry "retry-1" 3, ask .finalize "retry-1" 3]

/-- Every request of it meets a regular state. -/
theorem kept_regular : ∃ s, (machine desk).ReachableWhen (Regular desk) s ∧ s.applied = [0] ∧
    s.requests.map Call.request =
      [operation .retry "retry-1" 3, operation .retry "retry-1" 3,
      operation .finalize "retry-1" 3] := by
  have hrun : (((machine desk).runIf (Regular desk) { db := {} } kept).any fun s =>
      s.applied = [0] ∧ s.requests.map Call.request =
        [operation .retry "retry-1" 3, operation .retry "retry-1" 3,
          operation .finalize "retry-1" 3]) = true := by
    decide +kernel
  obtain ⟨s, hs, hfinal⟩ := (Option.any_eq_true _ _).mp hrun
  exact ⟨s, Machine.ReachableWhen.runIf (.start ⟨{}, rfl, rfl, rfl⟩) hs, of_decide_eq_true hfinal⟩

end Sample

/-- In that run the request is applied once: sent again it neither is applied nor executes the
cleanup, and with another action its key is refused. -/
theorem operations_idempotent_resent :
    ∃ s, (machine Sample.desk).ReachableWhen (Regular Sample.desk) s ∧ s.applied = [0] ∧
      ¬Works s 1 ∧ ∃ c error, s.requests[2]? = some c ∧ c.phase = .raised error := by
  obtain ⟨s, hs, happlied, hrequests⟩ := Sample.kept_regular
  obtain ⟨hidempotent, -⟩ := (operations_idempotent Sample.desk).2.1 s hs
  have hfirst : 0 ∈ s.applied := by simp [happlied]
  have hcall : ∀ (j : ℕ) (r : Request), (s.requests.map Call.request)[j]? = some r →
      ∃ c, s.requests[j]? = some c ∧ c.request = r := fun j r h =>
    Option.map_eq_some_iff.mp (List.getElem?_map.symm.trans h)
  rw [hrequests] at hcall
  obtain ⟨c, hc, hr⟩ := hcall 0 _ rfl
  obtain ⟨c', hc', hr'⟩ := hcall 1 _ rfl
  obtain ⟨c'', hc'', hr''⟩ := hcall 2 _ rfl
  obtain ⟨-, hidle⟩ := hidempotent.resent 0 hfirst 1 c c' one_pos hc hc' (hr'.trans hr.symm)
  obtain ⟨error, herror⟩ := hidempotent.refused 0 hfirst 2 c c'' two_pos hc hc''
    (by rw [hr, hr'']; rfl) (by rw [hr, hr'']; decide)
  exact ⟨s, hs, happlied, hidle, c'', error, hc'', herror⟩

/-- An old key with the current version takes the cleanup out of `BLOCKED` a second time, and the
same `FINALIZE` sent again executes the cleanup. -/
theorem not_once_per_key :
    (¬∀ s, (machine Sample.desk).Reachable s → ∀ i ∈ s.applied, ∀ j ∈ s.applied,
      (s.requests[i]?.map fun c => c.request.key) = (s.requests[j]?.map fun c => c.request.key) →
      i = j) ∧
    ¬∀ s, (machine Sample.desk).Reachable s → ∀ i ∈ s.applied, ∀ j, i < j →
      s.requests[i]?.map Call.request = s.requests[j]?.map Call.request → j ∉ s.executed := by
  have hstart : (machine Sample.desk).Reachable { db := {} } := .start ⟨{}, rfl, rfl, rfl⟩
  constructor
  · intro h
    have hrun : (((machine Sample.desk).run { db := {} } Sample.reuse).any fun s =>
        s.applied = [0, 1, 2] ∧ (s.requests[0]?.map fun c => c.request.key) =
          (s.requests[2]?.map fun c => c.request.key)) = true := by
      decide +kernel
    obtain ⟨s, hs, hfinal⟩ := (Option.any_eq_true _ _).mp hrun
    obtain ⟨happlied, hkeys⟩ := of_decide_eq_true hfinal
    exact absurd
      (h s (hstart.run hs) 0 (by simp [happlied]) 2 (by simp [happlied]) hkeys) (by decide)
  · intro h
    have hrun : (((machine Sample.desk).run { db := {} } Sample.resend).any fun s =>
        s.applied = [0] ∧ s.executed = [1] ∧
          s.requests[0]?.map Call.request = s.requests[1]?.map Call.request) = true := by
      decide +kernel
    obtain ⟨s, hs, hfinal⟩ := (Option.any_eq_true _ _).mp hrun
    obtain ⟨happlied, hexecuted, hsame⟩ := of_decide_eq_true hfinal
    exact h s (hstart.run hs) 0 (by simp [happlied]) 1 (by decide) hsame (by simp [hexecuted])

end ExAgent.Failure.Operators
