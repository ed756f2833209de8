import ExAgent.Worker.Routing

/-!
# Catching up on an execution's history

`EventRouter.once` of `worker/ingress.py`, run by any number of replicas beside the rest of the
worker. A call scans the candidate bindings and routes each of them in a task of its own. A task
holds the row the scan read, however old it is by then, and between any two of its awaits everything
else can happen: an event is ingested, another replica routes the same execution, the process dies.
A task's transactions are steps of the worker, so what holds of every run of the worker holds here.

`ingest(catch_up=True)` asks for a read of the history by adding one to `catch_up_version`, and a
task that has read to the end raises `caught_up_version` to the version of its row. The log keeps in
their order what the two counters stand for: the requests, the reads and their responses.

The counter is on the row of the binding. A request for an execution that is not bound yet updates
no row and leaves no trace (`catch_up_lost`), although such an event waits in the inbox for its
binding. `catch_up_kept` is the guarantee of every run in which each request finds its binding.
-/

namespace ExAgent.Worker

open Lib

/-! ## The source -/

/-- `Store.scan_candidates`. -/
def scanCandidates (db : Db) (now : Time) (limit : ℕ) : List (Uuid × Binding) :=
  ((db.bindings.entries.filter fun e => e.2.nextScanAt ≤ now ∧
    (e.2.catchUpVersion > e.2.caughtUpVersion ∨
      db.inbox.entries.any fun i => i.2.executionId = e.1 ∧
      i.2.sequence > e.2.lastSequence)).insertionSort
    fun a b => a.2.nextScanAt < b.2.nextScanAt ∨ (a.2.nextScanAt = b.2.nextScanAt ∧ a.1 ≤ b.1)).take
      limit

/-- The text of an exception of the store; an error of the database brings its own. -/
def StoreError.text (databaseText : String) : StoreError → String
  | .valueError message => message
  | .databaseError => databaseText

/-- The response to `GET /executions/{id}/events`: the items, `none` for one that is not an event,
and `has_more`. -/
structure HistoryPage where
  items : List (Option ExecutorEvent)
  hasMore : Bool

/-- `EventRouter`, with the worker it is part of. -/
structure EventRouter where
  config : Config
  eventTypes : List String
  batchSize : ℕ

namespace EventRouter

/-- Where the `process` of a row stands in `once`. -/
inductive Phase
  /-- It waits for the semaphore. -/
  | queued
  /-- `advance` has read under its row lock; `again` is `has_more` in the second call. -/
  | advancing (again : Option Bool)
  /-- The first `advance` has returned. -/
  | advanced (gap : Option ℕ)
  /-- The request is on its way. -/
  | fetching (gap : Option ℕ)
  /-- The items that are left are ingested. -/
  | storing (items : List (Option ExecutorEvent)) (hasMore : Bool)
  /-- The second `advance` has returned. -/
  | closing (hasMore : Bool)
  /-- `finish_catch_up` has committed. -/
  | finished
  /-- The `except` branch. -/
  | failing (error : String)
  | returned

/-- The `process` of one row. -/
structure Process where
  executionId : Uuid
  /-- The row as `scan_candidates` read it. -/
  row : Binding
  count : ℕ
  phase : Phase

/-- `catch_up` of `once`. -/
def Process.catchUp (t : Process) : Bool := t.row.catchUpVersion > t.row.caughtUpVersion

/-- The task stands somewhere else. -/
def Process.goto (t : Process) (phase : Phase) : Process := { t with phase := phase }

/-- A phase leaves the Execution of a process. -/
@[simp] theorem Process.goto_executionId (t : Process) (phase : Phase) :
    (t.goto phase).executionId = t.executionId := rfl

/-- It leaves the row the process works on. -/
@[simp] theorem Process.goto_row (t : Process) (phase : Phase) : (t.goto phase).row = t.row := rfl

/-- The phase is the one gone to. -/
@[simp] theorem Process.goto_phase (t : Process) (phase : Phase) :
    (t.goto phase).phase = phase := rfl

/-- What follows on a call of `advance` that has returned. -/
def Process.afterAdvance (t : Process) (count : ℕ) (gap : Option ℕ) : Option Bool → Process
  | none => { t with count := count, phase := .advanced gap }
  | some hasMore =>
    if count = 0 ∧ gap.isSome then t.goto (.failing "History did not advance")
    else { t with count := t.count + count, phase := .closing hasMore }

/-- What follows on the response. -/
def Process.afterResponse (t : Process) (gap : Option ℕ) (page : HistoryPage) : Process :=
  if page.items = [] ∧ (gap.isSome ∨ page.hasMore) then
    t.goto (.failing "Executor history gap is open")
  else t.goto (.storing page.items page.hasMore)

/-- An event of the log. -/
inductive Record
  /-- An `ingest(catch_up=True)` was committed. -/
  | requested (executionId : Uuid)
  /-- A task sent its `GET` for the events after a sequence. -/
  | started (task : ℕ) (executionId : Uuid) (afterSequence : ℕ)
  /-- The response of a task arrived. -/
  | page (task : ℕ) (executionId : Uuid) (hasMore : Bool)
deriving DecidableEq

/-- How a task goes on: to its next await, with the clock and the text of a database error there;
with a response; with an exception of the database, of HTTP or of the response's form; or not at
all. -/
inductive Go
  | resume (now : Time) (databaseText : String)
  | respond (page : HistoryPage)
  | raise (text : String)
  | die

/-- A call of `advance` up to its reads. It waits for the row lock; an execution that is not bound
has nothing to advance. -/
def beginAdvance (R : EventRouter) (w : State) (t : Process) (again : Option Bool) :
    Option (State × Process) :=
  (step R.config w (.advanceBegin t.executionId R.eventTypes R.batchSize)).map fun w' =>
    (w', if (advanceRead w.db t.executionId).isSome then t.goto (.advancing again)
      else t.afterAdvance 0 none again)

/-- The rest of the call. -/
def endAdvance (R : EventRouter) (w : State) (t : Process) (again : Option Bool) (now : Time)
    (databaseText : String) : Option (State × Process) :=
  (w.routing t.executionId).bind fun r =>
    (step R.config w (.advanceCommit now t.executionId)).map fun w' =>
      (w', match advanceWrite R.config.commandIdOf now t.executionId r.eventTypes
        r.limit r.read w.db with
        | .ok (_, count, gap) => t.afterAdvance count gap again
        | .error e => t.goto (.failing (e.text databaseText)))

/-- One item of the page. -/
def ingestItem (R : EventRouter) (w : State) (t : Process) (rest : List (Option ExecutorEvent))
    (hasMore : Bool) (databaseText : String) : Option ExecutorEvent → Option (State × Process)
  | none => some (w, t.goto (.failing databaseText))
  | some event =>
    if event.executionId ≠ t.executionId then
      some (w, t.goto (.failing "History mixed executions"))
    else
      (step R.config w (.ingest event false)).map fun w' =>
        (w', match ingest w.db event false with
          | .ok _ => t.goto (.storing rest hasMore)
          | .error e => t.goto (.failing (e.text databaseText)))

/-- `process` from one await to the next, with what it adds to the log. -/
def resume (R : EventRouter) (w : State) (i : ℕ) (t : Process) (now : Time)
    (databaseText : String) : Option (State × Process × List Record) :=
  match t.phase with
  | .queued => (R.beginAdvance w t none).map fun (w', t') => (w', t', [])
  | .advancing again =>
    (R.endAdvance w t again now databaseText).map fun (w', t') => (w', t', [])
  | .advanced gap =>
    if gap.isSome ∨ t.catchUp then
      some (w, t.goto (.fetching gap),
        [.started i t.executionId (gap.getD t.row.lastSequence)])
    else some (w, t.goto .returned, [])
  -- The response comes with `Go.respond`.
  | .fetching _ => none
  | .storing [] hasMore =>
    (R.beginAdvance w t (some hasMore)).map fun (w', t') => (w', t', [])
  | .storing (item :: rest) hasMore =>
    (R.ingestItem w t rest hasMore databaseText item).map fun (w', t') => (w', t', [])
  | .closing hasMore =>
    if t.catchUp ∧ ¬ hasMore then
      (step R.config w (.finishCatchUp t.executionId t.row.catchUpVersion)).map fun w' =>
        (w', t.goto .finished, [])
    else some (w, t.goto .returned, [])
  | .finished => some (w, t.goto .returned, [])
  | .failing error =>
    (step R.config w (.scanError now t.executionId error)).map fun w' =>
      (w', { t with count := 0, phase := .returned }, [])
  | .returned => none

/-- A transaction that the task has open is rolled back. -/
def rollBack (R : EventRouter) (w : State) (t : Process) : Option State :=
  match t.phase with
  | .advancing _ => step R.config w (.advanceAbort t.executionId)
  | _ => some w

/-- One step of a task. -/
def go (R : EventRouter) (w : State) (i : ℕ) (t : Process) :
    Go → Option (State × Process × List Record)
  | .resume now databaseText => R.resume w i t now databaseText
  | .respond page =>
    match t.phase with
    | .fetching gap =>
      some (w, t.afterResponse gap page, [.page i t.executionId page.hasMore])
    | _ => none
  | .raise text =>
    match t.phase with
    | .failing _ | .returned => none
    | _ => (R.rollBack w t).map fun w' => (w', t.goto (.failing text), [])
  | .die => (R.rollBack w t).map fun w' => (w', t.goto .returned, [])

/-! ## The system -/

/-- The worker, the tasks of every call of `once` by any replica, and the log. -/
structure System where
  worker : State
  tasks : List Process
  log : List Record

/-- A step of the system. -/
inductive Act
  /-- The rest of the worker: a registration, an event from the stream, a dispatch. -/
  | worker (a : Action)
  /-- A replica calls `once`. -/
  | once (now : Time)
  /-- A task goes on. -/
  | task (i : ℕ) (g : Go)

/-- The calls of the store that only the router makes. -/
def routes : Action → Bool
  | .finishCatchUp .. | .scanError .. | .advanceBegin .. | .advanceCommit .. | .advanceAbort .. =>
      true
  | _ => false

/-- The executions for which a step asks to catch up. -/
def requests (db : Db) : Act → List Uuid
  | .worker (.ingest event true) =>
    match ingest db event true with
    | .ok _ => [event.executionId]
    | .error _ => []
  | _ => []

/-- One step of the system. -/
def next (R : EventRouter) (s : System) (act : Act) : Option System :=
  match act with
  | .worker a =>
    if routes a then none
    else (step R.config s.worker a).map fun w =>
      { s with worker := w, log := s.log ++ (requests s.worker.db act).map .requested }
  | .once now =>
    some { s with tasks := s.tasks ++
      (scanCandidates s.worker.db now R.batchSize).map fun e => ⟨e.1, e.2, 0, .queued⟩ }
  | .task i g =>
    (s.tasks[i]?).bind fun t => (R.go s.worker i t g).map fun (w, t', l) =>
      ⟨w, s.tasks.set i t', s.log ++ l⟩

/-- The router beside the worker, as a transition system. -/
def system (R : EventRouter) : Machine System Act := ⟨fun s => s = ⟨.initial, [], []⟩, R.next⟩

end EventRouter

/-! ## The counters of a binding -/

/-- `catch_up_version` of an execution; `0` when it is not bound. -/
def Db.requestedOf (db : Db) (x : Uuid) : ℕ :=
  ((db.bindings.get x).map Binding.catchUpVersion).getD 0

/-- `caught_up_version` of an execution; `0` when it is not bound. -/
def Db.caughtUpOf (db : Db) (x : Uuid) : ℕ :=
  ((db.bindings.get x).map Binding.caughtUpVersion).getD 0

/-- The second database has the counters of the first. -/
def SameCounters (db db' : Db) : Prop :=
  ∀ x, db'.requestedOf x = db.requestedOf x ∧ db'.caughtUpOf x = db.caughtUpOf x

/-- The same bindings have the same counters. -/
theorem SameCounters.of_eq {db db' : Db} (h : db'.bindings = db.bindings) :
    SameCounters db db' := by
  intro x
  simp [Db.requestedOf, Db.caughtUpOf, h]

/-- An update of a binding outside its counters keeps them. -/
theorem modifyBinding_counters (db : Db) (x : Uuid) (f : Binding → Binding)
    (hf : ∀ b, (f b).catchUpVersion = b.catchUpVersion ∧
      (f b).caughtUpVersion = b.caughtUpVersion) :
    SameCounters db { db with bindings := db.bindings.modifyAt x f } := by
  intro y
  simp only [Db.requestedOf, Db.caughtUpOf, Table.get_modifyAt]
  split
  · cases db.bindings.get y with
    | none => exact ⟨rfl, rfl⟩
    | some b => exact hf b
  · exact ⟨rfl, rfl⟩

/-- `register` adds a binding with both counters at `0`, or nothing. -/
theorem register_counters {db db' : Db} {now : Time} {x : Uuid} {sessionId taskId actor : String}
    (h : register db now x sessionId taskId actor = .ok db') : SameCounters db db' := by
  intro y
  unfold register at h
  dsimp only at h
  split at h
  · cases h
  · split at h
    · split at h
      · cases h
        simp only [Db.requestedOf, Db.caughtUpOf, Table.get_insertIfAbsent]
        by_cases hy : y = x
        · subst hy
          cases db.bindings.get y <;> simp
        · simp [hy]
      · cases h
    · cases h

/-- The loop of `advance` leaves the bindings alone. -/
theorem routeLoop_bindings {commandIdOf : Uuid → Uuid} {now : Time} {x : Uuid} {types : List String}
    {events : List ExecutorEvent} {p p' : Progress}
    (h : routeLoop commandIdOf now x types events p = .ok p') : p'.db.bindings = p.db.bindings := by
  induction events generalizing p with
  | nil =>
    obtain rfl : p = p' := by simpa [routeLoop] using h
    rfl
  | cons event events ih =>
    unfold routeLoop at h
    split at h
    · obtain rfl := Except.ok.inj h
      rfl
    · split at h
      · cases h
      · rename_i hroute
        exact (ih h).trans (routeEvent_spec hroute).bindings

/-- `advance` writes the last sequence, and no counter. -/
theorem advanceWrite_counters {commandIdOf : Uuid → Uuid} {now : Time} {x : Uuid}
    {types : List String} {limit : ℕ} {read : AdvanceRead} {db db' : Db}
    {count : ℕ} {gap : Option ℕ}
    (h : advanceWrite commandIdOf now x types limit read db = .ok (db', count, gap)) :
    SameCounters db db' := by
  unfold advanceWrite at h
  dsimp only at h
  split at h
  · cases h
  · rename_i p hloop
    cases h
    have hbind := SameCounters.of_eq (routeLoop_bindings hloop)
    have hmod := modifyBinding_counters p.db x
      (fun b => { b with lastSequence := p.sequence, nextScanAt := now, lastError := none })
      fun _ => ⟨rfl, rfl⟩
    exact fun y => ⟨(hmod y).1.trans (hbind y).1, (hmod y).2.trans (hbind y).2⟩

/-- `ingest` counts a request for a bound execution, and changes no other counter. -/
theorem ingest_counters {db db' : Db} {event : ExecutorEvent} {catchUp : Bool}
    (h : ingest db event catchUp = .ok db') (x : Uuid) :
    db'.caughtUpOf x = db.caughtUpOf x ∧ db'.requestedOf x = db.requestedOf x +
      if catchUp ∧ x = event.executionId ∧ (db.bindings.get x).isSome then 1 else 0 := by
  unfold ingest at h
  dsimp only at h
  split at h
  · cases h
  · split at h
    · cases h
      simp only [Db.requestedOf, Db.caughtUpOf]
      cases catchUp with
      | false => simp
      | true =>
        simp only [if_true, Table.get_modifyAt]
        by_cases hx : x = event.executionId
        · cases hb : db.bindings.get x <;> simp [← hx]
        · simp [hx]
    · cases h

/-- `finish_catch_up` raises the counter of one execution. -/
theorem finishCatchUp_counters (db : Db) (x : Uuid) (version : ℕ) (y : Uuid) :
    (finishCatchUp db x version).requestedOf y = db.requestedOf y ∧
      ((finishCatchUp db x version).caughtUpOf y = db.caughtUpOf y ∨
        y = x ∧ (finishCatchUp db x version).caughtUpOf y = version) := by
  simp only [finishCatchUp, Db.requestedOf, Db.caughtUpOf, Table.get_modifyAt]
  by_cases hy : y = x
  · subst hy
    cases db.bindings.get y with
    | none => simp
    | some b =>
      refine ⟨by simp, ?_⟩
      rcases Nat.le_total b.caughtUpVersion version with hle | hle
      · exact .inr ⟨rfl, by simp [hle]⟩
      · exact .inl (by simp [hle])
  · simp [hy]

/-- A move of a consumer process leaves the bindings alone. -/
theorem Move.bindings {cfg : Config} {s s' : State} {p : ℕ} {proc : Proc} {pc : Pc}
    (h : Move cfg s p proc pc s') : s'.db.bindings = s.db.bindings := by
  cases h <;> rfl

/-- An operator's decision leaves the bindings alone. -/
theorem resolveFailed_bindings {db db' : Db} {c : Uuid} {retry : Bool} {actor reason : String}
    (h : resolveFailed db c retry actor reason = .ok db') : db'.bindings = db.bindings := by
  unfold resolveFailed at h
  split at h
  · cases h
  · split at h
    · cases h
    · split at h
      · cases h
        rfl
      · cases h

/-- A step of the worker that neither finishes a catch-up nor asks for one keeps the counters. -/
theorem step_counters {cfg : Config} {s s' : State} {a : Action} (h : step cfg s a = some s')
    (hfinish : ∀ x version, a ≠ .finishCatchUp x version) (hingest : ∀ e, a ≠ .ingest e true) :
    SameCounters s.db s'.db := by
  have hsame : s'.db.bindings = s.db.bindings → SameCounters s.db s'.db := .of_eq
  cases a with
  | register now x sessionId taskId actor =>
    obtain rfl := Option.some.inj h
    unfold State.commit
    split
    · exact register_counters ‹_›
    · exact .of_eq rfl
  | ingest event catchUp =>
    simp only [step] at h
    split at h
    · cases h
    · obtain rfl := Option.some.inj h
      -- By assumption the event asks for no catch-up.
      obtain rfl : catchUp = false := by
        cases catchUp with
        | false => rfl
        | true => exact absurd rfl (hingest event)
      unfold State.commit
      split
      · rename_i hdb
        intro x
        obtain ⟨hcaught, hasked⟩ := ingest_counters hdb x
        exact ⟨by simpa using hasked, hcaught⟩
      · exact .of_eq rfl
  | finishCatchUp x version => exact absurd rfl (hfinish x version)
  | scanError now x error =>
    simp only [step] at h
    split at h
    · cases h
    · obtain rfl := Option.some.inj h
      exact modifyBinding_counters _ _ _ fun _ => ⟨rfl, rfl⟩
  | advanceBegin x types limit =>
    simp only [step] at h
    split at h
    · cases h
    · split at h <;> (obtain rfl := Option.some.inj h; exact .of_eq rfl)
  | advanceCommit now x =>
    simp only [step] at h
    split at h
    · cases h
    · split at h
      · obtain rfl := Option.some.inj h
        exact .of_eq rfl
      · obtain rfl := Option.some.inj h
        exact advanceWrite_counters ‹_›
  | advanceAbort x =>
    obtain rfl := Option.some.inj h
    exact .of_eq rfl
  | claimOutbox now locked limit lease token =>
    simp only [step] at h
    split at h
    · cases h
    · obtain rfl := Option.some.inj h
      exact .of_eq rfl
  | xadd token row added reply =>
    simp only [step] at h
    split at h
    · cases h
    · split at h
      · cases h
      · split at h
        · cases h
        · obtain rfl := Option.some.inj h
          exact .of_eq rfl
  | finishPublications token sent =>
    simp only [step] at h
    split at h
    · cases h
    · split at h
      · cases h
      · obtain rfl := Option.some.inj h
        exact .of_eq rfl
  | publisherDies token =>
    obtain rfl := Option.some.inj h
    exact .of_eq rfl
  | deliver p i handlers maxAttempts =>
    simp only [step] at h
    split at h
    · obtain rfl := Option.some.inj h
      exact .of_eq rfl
    · cases h
  | work p choice =>
    simp only [step] at h
    split at h
    · cases h
    · exact hsame (State.work_move h).bindings
  | processDies p =>
    simp only [step] at h
    split at h
    · cases h
    · obtain rfl := Option.some.inj h
      exact hsame (by simp)
  | resolveFailed c retry actor reason =>
    -- Both ways to a resolution end in the same commit.
    have hcommit : SameCounters s.db (s.commit (resolveFailed s.db c retry actor reason)).db := by
      unfold State.commit
      split
      · exact .of_eq (resolveFailed_bindings ‹_›)
      · exact .of_eq rfl
    simp only [step] at h
    split at h
    · obtain rfl := Option.some.inj h
      exact hcommit
    · split at h
      · cases h
      · obtain rfl := Option.some.inj h
        exact hcommit

namespace EventRouter

/-! ## What the counters stand for -/

/-- The requests of an execution in a log. -/
def asked (log : List Record) (x : Uuid) : ℕ := log.count (.requested x)

/-- Task `i` has read the history of an execution to its end. It began at a sequence up to which
the history is routed, and when it began, at least `version` requests had been made. -/
def ReadSince (log : List Record) (last : ℕ) (x : Uuid) (version i : ℕ) : Prop :=
  ∃ pre a post, log = pre ++ .started i x a :: post ∧ version ≤ asked pre x ∧ a ≤ last ∧
    .page i x false ∈ post

/-- A read stays a read. -/
theorem ReadSince.mono {log : List Record} {last last' : ℕ} {x : Uuid} {version i : ℕ}
    (h : ReadSince log last x version i) (hle : last ≤ last') (l : List Record) :
    ReadSince (log ++ l) last' x version i := by
  obtain ⟨pre, a, post, rfl, hversion, ha, hpage⟩ := h
  exact ⟨pre, a, post ++ l, by simp, hversion, Nat.le_trans ha hle, by simp [hpage]⟩

/-- The response that a phase follows on: whether it has a next page. -/
def Phase.page : Phase → Option Bool
  | .storing _ hasMore | .advancing (some hasMore) | .closing hasMore => some hasMore
  | _ => none

/-- The invariant of a task: its row is no newer than the database, and its read, once it has
started, is in the log after every request that the row counts. -/
structure TaskInv (log : List Record) (last : Uuid → ℕ) (i : ℕ) (t : Process) : Prop where
  version : t.row.catchUpVersion ≤ asked log t.executionId
  sequence : t.row.lastSequence ≤ last t.executionId
  before : ∀ pre a post, log = pre ++ .started i t.executionId a :: post →
    t.row.catchUpVersion ≤ asked pre t.executionId
  gap : ∀ g, t.phase = .advanced (some g) → g ≤ last t.executionId
  started : ∀ gap, t.phase = .fetching gap → ∃ pre a post,
    log = pre ++ .started i t.executionId a :: post ∧ a ≤ last t.executionId
  read : t.phase.page = some false →
    ReadSince log (last t.executionId) t.executionId t.row.catchUpVersion i

/-- The invariant of the system. -/
structure Inv (s : System) : Prop where
  counted : ∀ x, s.worker.db.requestedOf x = asked s.log x
  caughtUp : ∀ x, s.worker.db.caughtUpOf x = 0 ∨
    ∃ i, ReadSince s.log (s.worker.db.lastOf x) x (s.worker.db.caughtUpOf x) i
  /-- A task that does not exist has read nothing. -/
  fresh : ∀ i x a, s.tasks.length ≤ i → .started i x a ∉ s.log
  task : ∀ i t, s.tasks[i]? = some t → TaskInv s.log s.worker.db.lastOf i t

/-! ## Steps of a task -/

/-- What a step of a task can do. -/
inductive TaskStep (R : EventRouter) (w : State) (i : ℕ) (t : Process) :
    State → Process → List Record → Prop
  /-- It goes on without a record and without a counter. A gap it has found lies at the routed
  prefix, and a response it still works on is the one it had. -/
  | quiet {w' : State} {count : ℕ} {phase : Phase}
      (hw : w' = w ∨ ∃ a, step R.config w a = some w') (hc : SameCounters w.db w'.db)
      (hgap : ∀ g, phase = .advanced (some g) → g ≤ w'.db.lastOf t.executionId)
      (hfetch : ∀ gap, phase ≠ .fetching gap)
      (hpage : phase.page = some false → t.phase.page = some false) :
      TaskStep R w i t w' { t with count := count, phase := phase } []
  /-- It sends its `GET`. -/
  | ask {gap : Option ℕ} (h : t.phase = .advanced gap) :
      TaskStep R w i t w (t.goto (.fetching gap))
        [.started i t.executionId (gap.getD t.row.lastSequence)]
  /-- The response arrives. -/
  | answered {gap : Option ℕ} {hasMore : Bool} {phase : Phase} (h : t.phase = .fetching gap)
      (hphase : phase.page = some hasMore ∨ ∃ e, phase = .failing e) :
      TaskStep R w i t w (t.goto phase) [.page i t.executionId hasMore]
  /-- It records that it has caught up. -/
  | caughtUp {w' : State} (h : t.phase.page = some false)
      (hw : step R.config w (.finishCatchUp t.executionId t.row.catchUpVersion) = some w') :
      TaskStep R w i t w' (t.goto .finished) []

/-- Where a task stands after a call of `advance`. -/
theorem Process.afterAdvance_spec (t : Process) (count : ℕ) (gap : Option ℕ) (again : Option Bool) :
    ∃ c phase, t.afterAdvance count gap again = { t with count := c, phase := phase } ∧
      (∀ g, phase = .advanced (some g) → gap = some g) ∧ (∀ g, phase ≠ .fetching g) ∧
      (phase.page = some false → again = some false) := by
  cases again with
  | none => exact ⟨count, .advanced gap, rfl, by simp, by simp, by simp [Phase.page]⟩
  | some hasMore =>
    unfold Process.afterAdvance
    dsimp only
    split
    · exact ⟨t.count, .failing "History did not advance", rfl, by simp, by simp, by
        simp [Phase.page]⟩
    · exact ⟨t.count + count, .closing hasMore, rfl, by simp, by simp, by simp [Phase.page]⟩

/-- The first half of `advance`. -/
theorem beginAdvance_spec {R : EventRouter} {w w' : State} {i : ℕ} {t t' : Process}
    {again : Option Bool} (h : R.beginAdvance w t again = some (w', t'))
    (hagain : again = some false → t.phase.page = some false) : TaskStep R w i t w' t' [] := by
  obtain ⟨v, hv, heq⟩ := Option.map_eq_some_iff.mp h
  obtain ⟨rfl, rfl⟩ := Prod.mk.inj heq
  have hc := step_counters hv nofun nofun
  split
  · refine .quiet (.inr ⟨_, hv⟩) hc (by simp) (by simp) fun hpage => hagain ?_
    cases again with
    | none => simp [Phase.page] at hpage
    | some hasMore => simpa [Phase.page] using hpage
  · obtain ⟨c, phase, hafter, hgap, hfetch, hpage⟩ := t.afterAdvance_spec 0 none again
    rw [hafter]
    exact .quiet (.inr ⟨_, hv⟩) hc (fun g hg => absurd (hgap g hg) (by simp)) hfetch
      fun hp => hagain (hpage hp)

/-- The second half of `advance`; a gap lies at the routed prefix. -/
theorem endAdvance_spec {R : EventRouter} {w w' : State} {i : ℕ} {t t' : Process}
    {again : Option Bool} {now : Time} {text : String} (hi : RoutingInv w)
    (h : R.endAdvance w t again now text = some (w', t'))
    (hagain : again = some false → t.phase.page = some false) : TaskStep R w i t w' t' [] := by
  obtain ⟨r, hr, h⟩ := Option.bind_eq_some_iff.mp h
  obtain ⟨v, hv, heq⟩ := Option.map_eq_some_iff.mp h
  obtain ⟨rfl, rfl⟩ := Prod.mk.inj heq
  have hc := step_counters hv nofun nofun
  split
  · rename_i db count gap hwrite
    obtain ⟨c, phase, hafter, hgap, hfetch, hpage⟩ := t.afterAdvance_spec count gap again
    have hdb : v.db = db := by
      simp only [step, hr, hwrite] at hv
      obtain rfl := Option.some.inj hv
      rfl
    obtain ⟨hb, hcur, hseen⟩ := hi.opened _ r hr
    have hdone := advanceWrite_spec hwrite hi.routed hb hcur hseen
    rw [hafter]
    refine .quiet (.inr ⟨_, hv⟩) hc (fun g hg => ?_) hfetch fun hp => hagain (hpage hp)
    have hat := ((hdone.gap_iff g).mp (hgap g hg)).1
    rw [hdb, hat]
  · exact .quiet (.inr ⟨_, hv⟩) hc (by simp) (by simp) (by simp [Phase.page])

/-- The ingest of one item of a page. -/
theorem ingestItem_spec {R : EventRouter} {w w' : State} {i : ℕ} {t t' : Process}
    {item : Option ExecutorEvent} {rest : List (Option ExecutorEvent)} {hasMore : Bool}
    {text : String} (h : R.ingestItem w t rest hasMore text item = some (w', t'))
    (hphase : t.phase.page = some hasMore) : TaskStep R w i t w' t' [] := by
  unfold ingestItem at h
  split at h
  · obtain ⟨rfl, rfl⟩ := Prod.mk.inj (Option.some.inj h)
    exact .quiet (.inl rfl) (.of_eq rfl) (by simp) (by simp) (by simp [Phase.page])
  · split at h
    · obtain ⟨rfl, rfl⟩ := Prod.mk.inj (Option.some.inj h)
      exact .quiet (.inl rfl) (.of_eq rfl) (by simp) (by simp) (by simp [Phase.page])
    · obtain ⟨v, hv, heq⟩ := Option.map_eq_some_iff.mp h
      obtain ⟨rfl, rfl⟩ := Prod.mk.inj heq
      have hc := step_counters hv nofun (by simp)
      split
      · refine .quiet (.inr ⟨_, hv⟩) hc (by simp) (by simp) fun hp => ?_
        rw [hphase, ← hp]
        rfl
      · exact .quiet (.inr ⟨_, hv⟩) hc (by simp) (by simp) (by simp [Phase.page])

/-- A rolled back transaction. -/
theorem rollBack_spec {R : EventRouter} {w w' : State} {i : ℕ} {t : Process} {phase : Phase}
    (h : R.rollBack w t = some w') (hgap : ∀ g, phase ≠ .advanced g)
    (hfetch : ∀ gap, phase ≠ .fetching gap) (hpage : phase.page = none) :
    TaskStep R w i t w' (t.goto phase) [] := by
  have hquiet : ∀ {v : State}, (v = w ∨ ∃ a, step R.config w a = some v) → SameCounters w.db v.db →
      TaskStep R w i t v (t.goto phase) [] := fun hv hc =>
    .quiet hv hc (fun g hg => absurd hg (hgap _)) hfetch (by simp [hpage])
  unfold rollBack at h
  split at h
  · exact hquiet (.inr ⟨_, h⟩) (step_counters h nofun nofun)
  · obtain rfl := Option.some.inj h
    exact hquiet (.inl rfl) (.of_eq rfl)

/-- Every step of a task is one of these. -/
theorem go_cases {R : EventRouter} {w w' : State} {i : ℕ} {t t' : Process} {g : Go}
    {l : List Record} (hi : RoutingInv w) (h : R.go w i t g = some (w', t', l)) :
    TaskStep R w i t w' t' l := by
  cases g with
  | resume now text =>
    simp only [go, resume] at h
    split at h
    · -- The advance begins.
      rename_i hphase
      obtain ⟨⟨v, u⟩, hv, heq⟩ := Option.map_eq_some_iff.mp h
      cases heq
      exact beginAdvance_spec hv nofun
    · -- The advance ends, and may ask for another one.
      rename_i again hphase
      obtain ⟨⟨v, u⟩, hv, heq⟩ := Option.map_eq_some_iff.mp h
      cases heq
      refine endAdvance_spec hi hv fun hagain => ?_
      rw [hphase, hagain]
      rfl
    · -- The gap is looked for at the Executor, while the row asks for it.
      rename_i gap hphase
      split at h
      · cases h
        exact .ask hphase
      · cases h
        exact .quiet (.inl rfl) (.of_eq rfl) (by simp) (by simp) (by simp [Phase.page])
    · cases h
    · -- A page is written, from the next advance to its last event.
      rename_i hasMore hphase
      obtain ⟨⟨v, u⟩, hv, heq⟩ := Option.map_eq_some_iff.mp h
      cases heq
      refine beginAdvance_spec hv fun hagain => ?_
      rw [hphase, Phase.page, hagain]
    · rename_i item rest hasMore hphase
      obtain ⟨⟨v, u⟩, hv, heq⟩ := Option.map_eq_some_iff.mp h
      cases heq
      exact ingestItem_spec hv (by rw [hphase, Phase.page])
    · -- The last page finishes the catch-up.
      rename_i hasMore hphase
      split at h
      · rename_i hcatch
        obtain ⟨v, hv, heq⟩ := Option.map_eq_some_iff.mp h
        cases heq
        refine .caughtUp ?_ hv
        rw [hphase, Phase.page]
        simpa using hcatch.2
      · cases h
        exact .quiet (.inl rfl) (.of_eq rfl) (by simp) (by simp) (by simp [Phase.page])
    · cases h
      exact .quiet (.inl rfl) (.of_eq rfl) (by simp) (by simp) (by simp [Phase.page])
    · -- A scan error is written into the row.
      obtain ⟨v, hv, heq⟩ := Option.map_eq_some_iff.mp h
      cases heq
      exact .quiet (.inr ⟨_, hv⟩) (step_counters hv nofun nofun) (by simp) (by simp)
        (by simp [Phase.page])
    · cases h
  | respond page =>
    simp only [go] at h
    split at h
    · rename_i gap hphase
      cases h
      unfold Process.afterResponse
      split
      · exact .answered hphase (.inr ⟨_, rfl⟩)
      · exact .answered hphase (.inl rfl)
    · cases h
  | raise text =>
    simp only [go] at h
    split at h
    · cases h
    · cases h
    · -- An exception rolls the open advance back.
      obtain ⟨v, hv, heq⟩ := Option.map_eq_some_iff.mp h
      cases heq
      exact rollBack_spec hv (by simp) (by simp) rfl
  | die =>
    obtain ⟨v, hv, heq⟩ := Option.map_eq_some_iff.mp h
    cases heq
    exact rollBack_spec hv (by simp) (by simp) rfl

/-- A task's step is at most one step of the worker. -/
theorem TaskStep.worker {R : EventRouter} {w w' : State} {i : ℕ} {t t' : Process} {l : List Record}
    (h : TaskStep R w i t w' t' l) : w' = w ∨ ∃ a, step R.config w a = some w' := by
  cases h with
  | quiet hw => exact hw
  | ask => exact .inl rfl
  | answered => exact .inl rfl
  | caughtUp _ hw => exact .inr ⟨_, hw⟩

/-- The task that moved is about the execution and the row it was about. -/
theorem TaskStep.row {R : EventRouter} {w w' : State} {i : ℕ} {t t' : Process} {l : List Record}
    (h : TaskStep R w i t w' t' l) : t'.executionId = t.executionId ∧ t'.row = t.row := by
  cases h <;> exact ⟨rfl, rfl⟩

/-- A task adds no request to the log, and starts a read of its own only. -/
theorem TaskStep.records {R : EventRouter} {w w' : State} {i : ℕ} {t t' : Process} {l : List Record}
    (h : TaskStep R w i t w' t' l) :
    (∀ x, asked l x = 0) ∧ ∀ j x a, .started j x a ∈ l → j = i := by
  cases h <;> simp +contextual [asked]

/-- A task leaves the counters alone, but for `finish_catch_up` when its response was the last. -/
theorem TaskStep.counters {R : EventRouter} {w w' : State} {i : ℕ} {t t' : Process}
    {l : List Record} (h : TaskStep R w i t w' t' l) (x : Uuid) :
    w'.db.requestedOf x = w.db.requestedOf x ∧ (w'.db.caughtUpOf x = w.db.caughtUpOf x ∨
      x = t.executionId ∧ t.phase.page = some false ∧
      w'.db.caughtUpOf x = t.row.catchUpVersion) := by
  cases h with
  | quiet hw hc => exact ⟨(hc x).1, .inl (hc x).2⟩
  | ask => exact ⟨rfl, .inl rfl⟩
  | answered => exact ⟨rfl, .inl rfl⟩
  | caughtUp hphase hw =>
    simp only [step] at hw
    split at hw
    · cases hw
    · obtain rfl := Option.some.inj hw
      obtain ⟨hasked, hsame | ⟨hx, hversion⟩⟩ :=
        finishCatchUp_counters w.db t.executionId t.row.catchUpVersion x
      · exact ⟨hasked, .inl hsame⟩
      · exact ⟨hasked, .inr ⟨hx, hphase, hversion⟩⟩

/-- A step of the system is at most one step of the worker. -/
theorem next_worker {R : EventRouter} {s s' : System} {act : Act} (hi : RoutingInv s.worker)
    (h : R.next s act = some s') :
    s'.worker = s.worker ∨ ∃ a, step R.config s.worker a = some s'.worker := by
  cases act with
  | worker a =>
    simp only [next] at h
    split at h
    · cases h
    · obtain ⟨w, hw, rfl⟩ := Option.map_eq_some_iff.mp h
      exact .inr ⟨a, hw⟩
  | once now =>
    obtain rfl := Option.some.inj h
    exact .inl rfl
  | task i g =>
    obtain ⟨t, -, h⟩ := Option.bind_eq_some_iff.mp h
    obtain ⟨⟨w, t', l⟩, hgo, rfl⟩ := Option.map_eq_some_iff.mp h
    exact (go_cases hi hgo).worker

/-- The worker of a reachable system is a reachable worker. -/
theorem worker_reachable {R : EventRouter} {s : System} (hr : R.system.Reachable s) :
    (Worker.worker R.config).Reachable s.worker := by
  induction hr with
  | start hs =>
    obtain rfl : _ = _ := hs
    exact .start rfl
  | next hr _ hs ih =>
    obtain hsame | ⟨b, hb⟩ := next_worker (reachable_routing ih) hs
    · rw [hsame]
      exact ih
    · exact ih.step hb

/-! ## The invariant is kept -/

/-- A record that a longer log holds, and its new end does not, is in the log before. -/
theorem split_before {log l pre post : List Record} {r : Record}
    (h : log ++ l = pre ++ r :: post) (hr : r ∉ l) :
    ∃ mid, log = pre ++ r :: mid ∧ post = mid ++ l := by
  obtain ⟨mid, rfl, rfl⟩ | ⟨mid, rfl, hmid⟩ := List.append_eq_append_iff.mp h
  · exact absurd (by simp) hr
  · cases mid with
    | nil => exact absurd (by rw [List.nil_append] at hmid; simp [← hmid]) hr
    | cons r' mid =>
      obtain ⟨rfl, rfl⟩ := List.cons.inj hmid
      exact ⟨mid, rfl, rfl⟩

/-- The requests of two logs, one after the other. -/
theorem asked_append (log l : List Record) (x : Uuid) :
    asked (log ++ l) x = asked log x + asked l x := by
  simp [asked]

/-- What does not start a read for a task keeps its invariant. -/
theorem TaskInv.mono {log l : List Record} {last last' : Uuid → ℕ} {i : ℕ} {t : Process}
    (h : TaskInv log last i t) (hle : ∀ x, last x ≤ last' x)
    (hnew : ∀ a, .started i t.executionId a ∉ l) : TaskInv (log ++ l) last' i t where
  version := by
    rw [asked_append]
    exact Nat.le_trans h.version (Nat.le_add_right ..)
  sequence := Nat.le_trans h.sequence (hle _)
  before := by
    intro pre a post hsplit
    obtain ⟨mid, hlog, -⟩ := split_before hsplit (hnew a)
    exact h.before pre a mid hlog
  gap := fun g hg => Nat.le_trans (h.gap g hg) (hle _)
  started := by
    intro gap hgap
    obtain ⟨pre, a, post, rfl, ha⟩ := h.started gap hgap
    exact ⟨pre, a, post ++ l, by simp, Nat.le_trans ha (hle _)⟩
  read := fun hp => (h.read hp).mono (hle _) l

/-- The task that moves keeps its invariant. -/
theorem TaskStep.inv {R : EventRouter} {w w' : State} {i : ℕ} {t t' : Process} {log l : List Record}
    (h : TaskStep R w i t w' t' l) (hi : TaskInv log w.db.lastOf i t)
    (hle : ∀ x, w.db.lastOf x ≤ w'.db.lastOf x) : TaskInv (log ++ l) w'.db.lastOf i t' := by
  cases h with
  | quiet hw hc hgap hfetch hpage =>
    have hi := hi.mono hle (l := []) (by simp)
    exact ⟨hi.version, hi.sequence, hi.before, hgap, fun g hg => absurd hg (hfetch g),
      fun hp => hi.read (hpage hp)⟩
  | ask hphase =>
    rename_i gap
    have hat : gap.getD t.row.lastSequence ≤ w.db.lastOf t.executionId := by
      cases gap with
      | none => exact hi.sequence
      | some g => exact hi.gap g hphase
    refine ⟨?_, hi.sequence, ?_, by simp, ?_, by simp [Phase.page]⟩
    · rw [asked_append]
      exact Nat.le_trans hi.version (Nat.le_add_right ..)
    · intro pre a post hsplit
      -- The read that starts now follows on every request; an earlier one is in the log before.
      rcases List.eq_nil_or_concat post with rfl | ⟨post, r, rfl⟩
      · obtain ⟨rfl, -⟩ := List.append_inj' hsplit rfl
        exact hi.version
      · rw [List.concat_eq_append, ← List.cons_append, ← List.append_assoc] at hsplit
        obtain ⟨hlog, -⟩ := List.append_inj' hsplit rfl
        exact hi.before pre a post hlog
    · intro g hg
      exact ⟨log, _, [], rfl, hat⟩
  | answered hphase hnext =>
    rename_i gap hasMore phase
    have hi' := hi.mono hle (l := [.page i t.executionId hasMore]) (by simp)
    refine ⟨hi'.version, hi'.sequence, hi'.before, ?_, ?_, ?_⟩
    · intro g hg
      obtain rfl : phase = _ := hg
      obtain hnext | ⟨e, hnext⟩ := hnext <;> simp [Phase.page] at hnext
    · intro g hg
      obtain rfl : phase = _ := hg
      obtain hnext | ⟨e, hnext⟩ := hnext <;> simp [Phase.page] at hnext
    · intro hpage
      obtain ⟨pre, a, post, rfl, ha⟩ := hi.started gap hphase
      have hmore : hasMore = false := by
        obtain hnext | ⟨e, rfl⟩ := hnext
        · exact Option.some.inj (hnext.symm.trans hpage)
        · simp [Phase.page] at hpage
      exact ⟨pre, a, post ++ [.page i t.executionId hasMore], by simp,
        hi.before pre a post rfl, ha, by simp [hmore]⟩
  | caughtUp hphase hw =>
    have hi := hi.mono hle (l := []) (by simp)
    exact ⟨hi.version, hi.sequence, hi.before, by simp, by simp,
      by simp [Phase.page]⟩

/-- What a scan finds is a binding as it is. -/
theorem get_of_scanned {db : Db} {now : Time} {limit : ℕ} {e : Uuid × Binding}
    (h : e ∈ scanCandidates db now limit) : db.bindings.get e.1 = some e.2 := by
  have h := (List.mem_insertionSort _).mp (List.mem_of_mem_take h)
  exact Table.mem_entries_iff.mp (List.mem_filter.mp h).1

/-- A step that asks for nothing keeps the counters, but for `finish_catch_up`. -/
theorem worker_counters {R : EventRouter} {w w' : State} {a : Action}
    (h : step R.config w a = some w') (hroutes : routes a = false)
    (hnone : requests w.db (.worker a) = []) : SameCounters w.db w'.db := by
  by_cases hingest : ∃ e, a = .ingest e true
  · obtain ⟨e, rfl⟩ := hingest
    have herror : ∃ error, ingest w.db e true = .error error := by
      simp only [requests] at hnone
      split at hnone
      · cases hnone
      · exact ⟨_, ‹_›⟩
    obtain ⟨error, herror⟩ := herror
    simp only [step, herror, State.commit] at h
    split at h
    · cases h
    · obtain rfl := Option.some.inj h
      exact .of_eq rfl
  · refine step_counters h ?_ fun e he => hingest ⟨e, he⟩
    rintro x version rfl
    cases hroutes

/-- What a step asks for, it asks for by one committed `ingest(catch_up=True)`. -/
theorem requests_cases (db : Db) (a : Action) : requests db (.worker a) = [] ∨
    ∃ e db', a = .ingest e true ∧ ingest db e true = .ok db' ∧
      requests db (.worker a) = [e.executionId] := by
  unfold requests
  split
  · rename_i e heq
    cases heq
    cases hdb : ingest db e true with
    | ok db' => exact .inr ⟨e, db', rfl, hdb, rfl⟩
    | error error => exact .inl rfl
  · exact .inl rfl

/-- Every execution for which a step asks to catch up is bound. -/
def Registered (s : System) (act : Act) : Prop :=
  ∀ x ∈ requests s.worker.db act, (s.worker.db.bindings.get x).isSome

instance (s : System) (act : Act) : Decidable (Registered s act) :=
  inferInstanceAs (Decidable (∀ x ∈ requests s.worker.db act, _))

/-- A step of the rest of the worker keeps the invariant. -/
theorem Inv.worker {R : EventRouter} {s : System} {w : State} {a : Action} (hi : Inv s)
    (hrouting : RoutingInv s.worker) (hc : Registered s (.worker a)) (hroutes : routes a = false)
    (h : step R.config s.worker a = some w) :
    Inv { s with
      worker := w, log := s.log ++ (requests s.worker.db (.worker a)).map .requested } := by
  have hle := lastOf_mono hrouting h
  -- The counters follow the log.
  have hcounters : ∀ x, w.db.caughtUpOf x = s.worker.db.caughtUpOf x ∧
      w.db.requestedOf x = s.worker.db.requestedOf x +
        asked ((requests s.worker.db (.worker a)).map .requested) x := by
    intro x
    obtain hnone | ⟨e, db, rfl, hdb, hreq⟩ := requests_cases s.worker.db a
    · obtain ⟨hasked, hcaught⟩ := worker_counters h hroutes hnone x
      rw [hnone]
      exact ⟨hcaught, by simpa [asked] using hasked⟩
    · have hbound := hc e.executionId (by simp [hreq])
      have hw : w.db = db := by
        simp only [step, hdb, State.commit] at h
        split at h
        · cases h
        · obtain rfl := Option.some.inj h
          rfl
      obtain ⟨hcaught, hasked⟩ := ingest_counters hdb x
      rw [hw, hreq]
      refine ⟨hcaught, hasked.trans ?_⟩
      by_cases hx : x = e.executionId
      · subst hx
        simp [asked, hbound]
      · simp [asked, hx, Ne.symm hx]
  refine ⟨?_, ?_, ?_, ?_⟩
  · intro x
    rw [asked_append, ← hi.counted x]
    exact (hcounters x).2
  · intro x
    dsimp only
    rw [(hcounters x).1]
    obtain hzero | ⟨i, hread⟩ := hi.caughtUp x
    · exact .inl hzero
    · exact .inr ⟨i, hread.mono (hle x) _⟩
  · intro i x b hlen hmem
    obtain hmem | hmem := List.mem_append.mp hmem
    · exact hi.fresh i x b hlen hmem
    · simp at hmem
  · intro i t ht
    exact (hi.task i t ht).mono hle (by simp)

/-- A scan keeps the invariant. -/
theorem Inv.once {R : EventRouter} {s : System} {now : Time} (hi : Inv s) :
    Inv { s with tasks := s.tasks ++
      (scanCandidates s.worker.db now R.batchSize).map fun e => ⟨e.1, e.2, 0, .queued⟩ } := by
  refine ⟨hi.counted, hi.caughtUp, fun i x a hlen => hi.fresh i x a ?_, fun i t ht => ?_⟩
  · rw [List.length_append] at hlen
    omega
  · rw [List.getElem?_append] at ht
    split at ht
    · exact hi.task i t ht
    · rename_i hlen
      obtain ⟨e, he, rfl⟩ := List.mem_map.mp (List.mem_of_getElem? ht)
      have hrow := get_of_scanned he
      refine ⟨?_, ?_, ?_, by simp, by simp, by simp [Phase.page]⟩
      · dsimp only
        rw [← hi.counted e.1, Db.requestedOf, hrow]
        exact Nat.le_refl _
      · dsimp only
        rw [Db.lastOf, hrow]
        exact Nat.le_refl _
      · intro pre a post hlog
        refine absurd ?_ (hi.fresh i e.1 a (Nat.le_of_not_lt hlen))
        dsimp only at hlog
        rw [hlog]
        simp

/-- A step of a task keeps the invariant. -/
theorem Inv.go {R : EventRouter} {s : System} {w : State} {i : ℕ} {t t' : Process}
    {l : List Record} (hi : Inv s) (hrouting : RoutingInv s.worker) (ht : s.tasks[i]? = some t)
    (h : TaskStep R s.worker i t w t' l) : Inv ⟨w, s.tasks.set i t', s.log ++ l⟩ := by
  have hle : ∀ x, s.worker.db.lastOf x ≤ w.db.lastOf x := by
    intro x
    obtain rfl | ⟨a, ha⟩ := h.worker
    · exact Nat.le_refl _
    · exact lastOf_mono hrouting ha x
  obtain ⟨hnone, hown⟩ := h.records
  have htask := hi.task i t ht
  have hlt : i < s.tasks.length := (List.getElem?_eq_some_iff.mp ht).1
  refine ⟨?_, ?_, ?_, ?_⟩
  · intro x
    rw [asked_append, hnone x, Nat.add_zero, ← hi.counted x]
    exact (h.counters x).1
  · intro x
    dsimp only
    obtain hsame | ⟨rfl, hpage, hversion⟩ := (h.counters x).2
    · rw [hsame]
      obtain hzero | ⟨j, hread⟩ := hi.caughtUp x
      · exact .inl hzero
      · exact .inr ⟨j, hread.mono (hle x) l⟩
    · -- `finish_catch_up` writes the version of a read that is in the log.
      rw [hversion]
      exact .inr ⟨i, (htask.read hpage).mono (hle _) l⟩
  · intro j x a hlen hmem
    rw [List.length_set] at hlen
    obtain hmem | hmem := List.mem_append.mp hmem
    · exact hi.fresh j x a hlen hmem
    · have := hown j x a hmem
      omega
  · intro j u hu
    rw [List.getElem?_set] at hu
    split at hu
    · rename_i hj
      subst hj
      obtain rfl := Option.some.inj hu
      exact h.inv htask hle
    · rename_i hj
      exact (hi.task j u hu).mono hle fun a ha => hj (hown j _ a ha).symm

/-- The invariant holds in every run in which each request finds its binding. -/
theorem inv_reachable {R : EventRouter} {s : System} (hr : R.system.ReachableWhen Registered s) :
    Inv s := by
  refine hr.invariant (fun s hs => ?_) fun s act s' hr hi hc h => ?_
  · obtain rfl : s = _ := hs
    exact ⟨fun x => rfl, fun x => .inl rfl, by simp, by simp⟩
  · have hrouting := reachable_routing (worker_reachable hr.reachable)
    cases act with
    | worker a =>
      replace h : R.next s (.worker a) = some s' := h
      simp only [next] at h
      split at h
      · cases h
      · rename_i hroutes
        obtain ⟨w, hw, rfl⟩ := Option.map_eq_some_iff.mp h
        exact hi.worker hrouting hc (by simpa using hroutes) hw
    | once now =>
      obtain rfl := Option.some.inj h
      exact hi.once
    | task i g =>
      obtain ⟨t, ht, h⟩ := Option.bind_eq_some_iff.mp h
      obtain ⟨⟨w, t', l⟩, hgo, rfl⟩ := Option.map_eq_some_iff.mp h
      exact hi.go hrouting ht (go_cases hrouting hgo)

/-! ## The guarantee -/

/-- The records hold a read of the history that began at a routed sequence and was read to the
end. -/
def Answered (x : Uuid) (last : ℕ) (records : List Record) : Prop :=
  ∃ i before a after, records = before ++ .started i x a :: after ∧ a ≤ last ∧
    .page i x false ∈ after

/-- Every execution that counts as caught up was read to the end after each of its requests. -/
def CatchesUp (s : System) : Prop :=
  ∀ x b pre post, s.worker.db.bindings.get x = some b → b.catchUpVersion ≤ b.caughtUpVersion →
    s.log = pre ++ .requested x :: post → Answered x b.lastSequence post

/-- A step of task `i` does not mark an execution as caught up that was asked for after the task's
read had started. -/
def KeepsRequests (s s' : System) (i : ℕ) : Prop :=
  ∀ x a pre post b b', s.log = pre ++ .started i x a :: post → .requested x ∈ post →
    s.worker.db.bindings.get x = some b → s'.worker.db.bindings.get x = some b' →
    b.caughtUpVersion < b.catchUpVersion → b'.caughtUpVersion < b'.catchUpVersion

/-- The counters of a bound execution. -/
theorem counters_of_bound {db : Db} {x : Uuid} {b : Binding} (hb : db.bindings.get x = some b) :
    db.requestedOf x = b.catchUpVersion ∧ db.caughtUpOf x = b.caughtUpVersion ∧
      db.lastOf x = b.lastSequence := by
  simp [Db.requestedOf, Db.caughtUpOf, Db.lastOf, hb]

/-- Requests after a prefix of the log are counted above those in it. -/
theorem asked_lt (pre : List Record) (r : Record) {post : List Record} {x : Uuid}
    (h : .requested x ∈ post) :
    asked pre x < asked (pre ++ r :: post) x := by
  have hpos : 0 < asked post x := List.count_pos_iff.mpr h
  rw [asked_append]
  have hcons : asked post x ≤ asked (r :: post) x := List.count_le_count_cons ..
  omega

/-- The invariant gives the first part: the read behind `caught_up_version` counted every request,
so none of them comes after its start. -/
theorem Inv.catchesUp {s : System} (hi : Inv s) : CatchesUp s := by
  intro x b pre post hb hle hlog
  obtain ⟨hasked, hcaught, hlast⟩ := counters_of_bound hb
  have hcount := hi.counted x
  have hsome : asked s.log x ≠ 0 := by
    rw [hlog]
    simp [asked]
  obtain hzero | ⟨i, before, a, after, hsplit, hversion, ha, hpage⟩ := hi.caughtUp x
  · omega
  · rw [hlast] at ha
    have hall : asked s.log x ≤ asked before x := by omega
    rw [hlog] at hsplit
    obtain ⟨mid, rfl, hpost⟩ | ⟨mid, rfl, hpost⟩ := List.append_eq_append_iff.mp hsplit
    · cases mid with
      | nil => simp at hpost
      | cons r mid =>
        obtain ⟨rfl, rfl⟩ := List.cons.inj hpost
        exact ⟨i, mid, a, after, rfl, ha, hpage⟩
    · -- The request would come after the start of the read.
      exfalso
      cases mid with
      | nil => simp at hpost
      | cons r mid =>
        obtain ⟨rfl, rfl⟩ := List.cons.inj hpost
        have hlt := asked_lt before (.started i x a)
          (show Record.requested x ∈ mid ++ .requested x :: post by simp)
        rw [hlog] at hall
        simp only [List.append_assoc, List.cons_append] at hall hlt
        omega

/-- The invariant gives the second part: the row of the task counts fewer requests. -/
theorem Inv.keepsRequests {R : EventRouter} {s s' : System} {i : ℕ} {g : Go} (hi : Inv s)
    (hrouting : RoutingInv s.worker) (h : R.next s (.task i g) = some s') :
    KeepsRequests s s' i := by
  intro x a pre post b b' hlog hmem hb hb' hlt
  obtain ⟨t, ht, h⟩ := Option.bind_eq_some_iff.mp h
  obtain ⟨⟨w, t', l⟩, hgo, rfl⟩ := Option.map_eq_some_iff.mp h
  obtain ⟨hasked, hcaught, -⟩ := counters_of_bound hb
  obtain ⟨hasked', hcaught', -⟩ := counters_of_bound hb'
  obtain ⟨hsame, hsame' | ⟨rfl, -, hversion⟩⟩ := (go_cases hrouting hgo).counters x
  · simp only at hasked' hcaught'
    omega
  · have hbefore := (hi.task i t ht).before pre a post hlog
    have hafter := asked_lt pre (.started i t.executionId a) hmem
    have hcount := hi.counted t.executionId
    rw [hlog] at hcount
    simp only at hasked' hcaught'
    omega

/-- The guarantee of catching up, in every run in which each request finds its binding: whenever an
execution counts as caught up, each of its requests was followed by a read of its history to the
end, and a request made while a task reads is not marked done by that task. -/
theorem catch_up_kept (R : EventRouter) :
    (∀ s, R.system.ReachableWhen Registered s → CatchesUp s) ∧
    (∀ s s' i g, R.system.ReachableWhen Registered s → R.next s (.task i g) = some s' →
      KeepsRequests s s' i) :=
  ⟨fun _ hr => (inv_reachable hr).catchesUp, fun _ _ _ _ hr h =>
    (inv_reachable hr).keepsRequests (reachable_routing (worker_reachable hr.reachable)) h⟩

/-- A router for runs on concrete inputs. -/
def sampleRouter : EventRouter := ⟨sampleConfig, ["OPERATION_SUCCEEDED"], 10⟩

/-- A run that binds the execution, ingests a reclaimed event and reads the history. -/
def servedRun : List Act :=
  [.worker (.register 0 7 "session" "task" "api"),
    .worker (.ingest (sampleEvent 11 1 Nat.one_pos) true), .once 1,
    .task 0 (.resume 1 ""), .task 0 (.resume 1 ""), .task 0 (.resume 1 ""),
    .task 0 (.respond ⟨[], false⟩), .task 0 (.resume 2 ""), .task 0 (.resume 2 ""),
    .task 0 (.resume 2 "")]

/-- The guarantee at the end of that run: the execution counts as caught up, and the history was
read after the request. -/
theorem catch_up_served : ∃ s b post,
    sampleRouter.system.runIf Registered ⟨.initial, [], []⟩ servedRun = some s ∧
    s.worker.db.bindings.get 7 = some b ∧ b.catchUpVersion = 1 ∧ b.caughtUpVersion = 1 ∧
    s.log = [] ++ .requested 7 :: post ∧ Answered 7 b.lastSequence post := by
  refine ⟨_, _, _, rfl, rfl, rfl, rfl, rfl, ?_⟩
  have hinit : sampleRouter.system.init ⟨.initial, [], []⟩ := rfl
  have hrun : sampleRouter.system.runIf Registered ⟨.initial, [], []⟩ servedRun = some _ := rfl
  exact (catch_up_kept sampleRouter).1 _ (.runIf (.start hinit) hrun) 7 _ [] _ rfl (by decide) rfl

/-- A run in which the reclaimed event comes before its binding. -/
def lostRun : List Act :=
  [.worker (.ingest (sampleEvent 11 1 Nat.one_pos) true),
    .worker (.register 0 7 "session" "task" "api")]

/-- Without the condition the guarantee fails: the request of that run finds no row to count it, and
the binding is registered as caught up. -/
theorem catch_up_lost : ¬ ∀ s, sampleRouter.system.Reachable s → CatchesUp s := by
  intro h
  have hinit : sampleRouter.system.init ⟨.initial, [], []⟩ := rfl
  have hrun : sampleRouter.system.run ⟨.initial, [], []⟩ lostRun = some _ := rfl
  have hreach : sampleRouter.system.Reachable _ := .run (.start hinit) hrun
  obtain ⟨i, before, a, after, hsplit, -⟩ := h _ hreach 7 _ [] [] rfl (by decide) rfl
  simp at hsplit

end EventRouter

end ExAgent.Worker
