import ExAgent.Pages.Newest
import ExAgent.Transport.DeadLetters
import ExAgent.Worker.Delivery

/-!
# The scans of the failure recovery

`FailureRecovery.once` of `agent/failure/recovery.py` reads a page of the blocked requests
(`RequestStore.blocked_page`) and a page of the failed commands (`Store.failed_page`) and captures
each row; a capture that raises is logged and the next one follows. A page that is not full is the
last one, and the next call starts again. What the captures and the rest of the call do is up to
them: the model has what each call reads, and the rows it reaches.
-/

namespace ExAgent.Pages

open Lib
open Stores (RequestRow)
open Worker (CommandRow)

/-! ## The pages -/

/-- `RequestStore.blocked_page`. -/
def RequestStore.blockedPage (requests : Table Uuid RequestRow) (after : Option Uuid) (limit : ℤ) :
    Except PageError (List Uuid) :=
  if ¬(1 ≤ limit ∧ limit ≤ 100) then .error .pageSize
  else .ok ((((requests.entries.filter fun e => e.2.state = .blocked ∧ ∀ a ∈ after, a < e.1).map
    Prod.fst).mergeSort fun a b => a ≤ b).take limit.toNat)

/-- A row of `Store.failed_page`. -/
structure FailedRow where
  commandId : Uuid
  executionId : Uuid
  sequence : ℕ
deriving DecidableEq

/-- The columns that the page is ordered by. -/
def FailedRow.key (row : FailedRow) : ℕ ×ₗ ℕ := toLex (row.executionId, row.sequence)

/-- The failed commands of the namespace. -/
def failedRows (db : Worker.Db) : List FailedRow :=
  (db.commands.entries.filter fun e => e.2.state = .failed).map fun e =>
    ⟨e.1, e.2.executionId, e.2.sequence⟩

/-- `Store.failed_page`. -/
def Store.failedPage (db : Worker.Db) (after : Option (Uuid × ℕ)) (limit : ℤ) :
    Except PageError (List FailedRow) :=
  if ¬(1 ≤ limit ∧ limit ≤ 100) then .error .pageSize
  else .ok ((((failedRows db).filter fun row => ∀ a ∈ after,
      a.1 < row.executionId ∨ a.1 = row.executionId ∧ a.2 < row.sequence).mergeSort fun a b =>
    a.executionId < b.executionId ∨ a.executionId = b.executionId ∧ a.sequence ≤ b.sequence).take
      limit.toNat)

/-! ## The scans -/

/-- The batch size that `FailureRecovery` takes. -/
structure Budget where
  batchSize : ℕ
  range : 1 ≤ batchSize ∧ batchSize ≤ 100

/-- `api_cursor` and `worker_cursor`. -/
structure Cursors where
  api : Option Uuid
  worker : Option (Uuid × ℕ)

/-- What the two reads of a call find; a deployment may have no worker store. -/
structure Sight where
  requests : Table Uuid RequestRow
  worker : Option Worker.Db

variable (B : Budget)

/-- The blocked requests of a call, and the next cursor. -/
def apiPage (requests : Table Uuid RequestRow) (cursor : Option Uuid) :
    Except PageError (List Uuid × Option Uuid) :=
  (RequestStore.blockedPage requests cursor B.batchSize).map fun ids =>
    (ids, if ids.length = B.batchSize then ids.getLast? else none)

/-- The failed commands of a call, and the next cursor. -/
def workerPage (db : Worker.Db) (cursor : Option (Uuid × ℕ)) :
    Except PageError (List FailedRow × Option (Uuid × ℕ)) :=
  (Store.failedPage db cursor B.batchSize).map fun rows =>
    (rows, if rows.length = B.batchSize then
      rows.getLast?.map fun row => (row.executionId, row.sequence) else none)

/-- What a call leaves behind: its cursors, and the requests and the commands that it captured. -/
structure Passed where
  cursors : Cursors
  requests : List Uuid
  commands : List Uuid

/-- `FailureRecovery.once`. -/
def FailureRecovery.once (cursors : Cursors) (sight : Sight) : Except PageError Passed := do
  let api ← apiPage B sight.requests cursors.api
  match sight.worker with
  | none => return ⟨⟨api.2, cursors.worker⟩, api.1, []⟩
  | some db =>
    let worker ← workerPage B db cursors.worker
    return ⟨⟨api.2, worker.2⟩, api.1, worker.1.map FailedRow.commandId⟩

variable {B}

/-! ## The pages are those of a scan -/

/-- The ids of the blocked requests. -/
def blockedIds (requests : Table Uuid RequestRow) : List Uuid :=
  (requests.entries.filter fun e => e.2.state = .blocked).map Prod.fst

/-- No blocked request is listed twice. -/
theorem blockedIds_nodup (requests : Table Uuid RequestRow) :
    ((blockedIds requests).map id).Nodup := by
  rw [List.map_id]
  exact requests.nodup.sublist (List.filter_sublist.map _)

/-- The page of the API's recovery is one of a keyset scan. -/
theorem apiPage_eq (requests : Table Uuid RequestRow) (cursor : Option Uuid) :
    apiPage B requests cursor =
      .ok (Keyset.scanPage id B.batchSize cursor (blockedIds requests),
        Keyset.scanNext id B.batchSize
        (Keyset.scanPage id B.batchSize cursor (blockedIds requests))) := by
  have hrange : 1 ≤ (B.batchSize : ℤ) ∧ (B.batchSize : ℤ) ≤ 100 := by
    have h := B.range
    omega
  have hfilter : (requests.entries.filter fun e =>
      decide (e.2.state = .blocked ∧ ∀ a ∈ cursor, a < e.1)).map Prod.fst =
      Keyset.after id cursor (blockedIds requests) := by
    unfold Keyset.after blockedIds
    rw [List.filter_map, List.filter_filter]
    congr 1
    refine List.filter_congr fun e _ => ?_
    rw [Bool.eq_iff_iff]
    simp [and_comm]
  have hnext : ∀ ids : List Uuid, (if ids.length = B.batchSize then ids.getLast? else none) =
      Keyset.scanNext id B.batchSize ids := by
    intro ids
    unfold Keyset.scanNext
    rw [Option.map_id_fun]
    rfl
  unfold apiPage RequestStore.blockedPage
  rw [if_neg (not_not.mpr hrange), hfilter, Int.toNat_natCast]
  exact congrArg Except.ok (Prod.ext rfl (hnext _))

/-- The commands of a worker are told apart by their execution and sequence: an event has one
command, and a sequence of an execution one event. -/
theorem failedRows_nodup {db : Worker.Db} (hr : Worker.Routed db db.lastOf) :
    ((failedRows db).map FailedRow.key).Nodup := by
  have hids := db.commands.nodup
  rw [List.Nodup, List.pairwise_map] at hids
  unfold failedRows
  rw [List.map_map, List.Nodup, List.pairwise_map]
  refine List.Pairwise.imp_of_mem (fun {a b} ha hb hne heq => hne ?_)
    (hids.sublist List.filter_sublist)
  have ha' : db.commands.get a.1 = some a.2 := Table.mem_entries_iff.mp (List.mem_of_mem_filter ha)
  have hb' : db.commands.get b.1 = some b.2 := Table.mem_entries_iff.mp (List.mem_of_mem_filter hb)
  have hkey : (a.2.executionId, a.2.sequence) = (b.2.executionId, b.2.sequence) :=
    toLex.injective heq
  obtain ⟨r, hr1, _, hexecution, hsequence⟩ := hr.command_event a.1 a.2 ha'
  obtain ⟨r', hr1', _, hexecution', hsequence'⟩ := hr.command_event b.1 b.2 hb'
  have hevent : a.2.eventId = b.2.eventId :=
    hr.unique _ _ r r' hr1 hr1'
      (hexecution.trans ((congrArg Prod.fst hkey).trans hexecution'.symm))
      (hsequence.trans ((congrArg Prod.snd hkey).trans hsequence'.symm))
  exact hr.command_unique a.1 b.1 a.2 b.2 ha' hb' hevent

/-- So is the page of the Worker's recovery. -/
theorem workerPage_eq (db : Worker.Db) (cursor : Option (Uuid × ℕ)) :
    workerPage B db cursor =
      .ok (Keyset.scanPage FailedRow.key B.batchSize (cursor.map toLex) (failedRows db),
        if (Keyset.scanPage FailedRow.key B.batchSize (cursor.map toLex) (failedRows db)).length =
            B.batchSize then
          (Keyset.scanPage FailedRow.key B.batchSize (cursor.map toLex)
            (failedRows db)).getLast?.map
            fun row => (row.executionId, row.sequence)
        else none) := by
  have hrange : 1 ≤ (B.batchSize : ℤ) ∧ (B.batchSize : ℤ) ≤ 100 := by
    have h := B.range
    omega
  have hfilter : ((failedRows db).filter fun row => decide (∀ a ∈ cursor,
      a.1 < row.executionId ∨ a.1 = row.executionId ∧ a.2 < row.sequence)) =
      Keyset.after FailedRow.key (cursor.map toLex) (failedRows db) := by
    refine List.filter_congr fun row _ => decide_eq_decide.mpr ?_
    cases cursor with
    | none => simp
    | some a => simp [FailedRow.key, Prod.Lex.toLex_lt_toLex]
  have horder : (fun a b : FailedRow => decide (a.executionId < b.executionId ∨
      a.executionId = b.executionId ∧ a.sequence ≤ b.sequence)) =
      fun a b => decide (a.key ≤ b.key) := by
    funext a b
    exact decide_eq_decide.mpr (by simp [FailedRow.key, Prod.Lex.toLex_le_toLex])
  unfold workerPage Store.failedPage
  rw [if_neg (not_not.mpr hrange), hfilter, horder, Int.toNat_natCast]
  rfl

/-! ## Following the cursors -/

/-- Over requests that stay, the recovery's cursor passes each blocked one once, in order, and comes
back to the start. -/
theorem walk_apiPage (requests : Table Uuid RequestRow) :
    Keyset.Walk (apiPage B requests) none (Keyset.ordered id (blockedIds requests)) := by
  have hwalk : Keyset.Walk (apiPage B requests) none
      ((Keyset.ordered id (blockedIds requests)).map id) := by
    refine Keyset.walk_scan B.range.1 (blockedIds_nodup requests) (fun r => rfl) fun cursor => ?_
    rw [apiPage_eq, List.map_id, Option.map_id_fun]
    rfl
  rwa [List.map_id] at hwalk

/-- Over commands that stay, the recovery's cursor passes each failed one once, in order, and comes
back to the start. -/
theorem walk_workerPage {db : Worker.Db} (hr : Worker.Routed db db.lastOf) :
    Keyset.Walk (workerPage B db) none (Keyset.ordered FailedRow.key (failedRows db)) := by
  have hwalk : Keyset.Walk (workerPage B db) none
      ((Keyset.ordered FailedRow.key (failedRows db)).map id) := by
    refine Keyset.walk_scan B.range.1 (failedRows_nodup hr) (fun r => rfl) fun cursor => ?_
    rw [workerPage_eq, List.map_id]
  rwa [List.map_id] at hwalk

/-! ## Rows that go on failing -/

/-- Calls of `once` one after another, with what each of them reads. -/
structure Calls (B : Budget) (sights : ℕ → Sight) (cursors : ℕ → Cursors) (passed : ℕ → Passed) :
    Prop where
  once : ∀ n, FailureRecovery.once B (cursors n) (sights n) = .ok (passed n)
  next : ∀ n, cursors (n + 1) = (passed n).cursors

/-- A call captures the requests of a page, and moves on. -/
theorem once_requests {cursors : Cursors} {sight : Sight} {p : Passed}
    (h : FailureRecovery.once B cursors sight = .ok p) :
    p.requests = Keyset.scanPage id B.batchSize cursors.api (blockedIds sight.requests) ∧
      p.cursors.api = Keyset.scanNext id B.batchSize p.requests := by
  unfold FailureRecovery.once at h
  rw [apiPage_eq] at h
  cases hworker : sight.worker with
  | none =>
    rw [hworker] at h
    obtain rfl := Except.ok.inj h
    exact ⟨rfl, rfl⟩
  | some db =>
    rw [hworker] at h
    simp only [bind, Except.bind, workerPage_eq] at h
    obtain rfl := Except.ok.inj h
    exact ⟨rfl, rfl⟩

/-- A call captures the commands of a page, and moves on. -/
theorem once_commands {cursors : Cursors} {sight : Sight} {p : Passed} {db : Worker.Db}
    (h : FailureRecovery.once B cursors sight = .ok p) (hworker : sight.worker = some db) :
    p.commands = (Keyset.scanPage FailedRow.key B.batchSize (cursors.worker.map toLex)
        (failedRows db)).map FailedRow.commandId ∧
      p.cursors.worker.map toLex = Keyset.scanNext FailedRow.key B.batchSize
        (Keyset.scanPage FailedRow.key B.batchSize (cursors.worker.map toLex) (failedRows db)) := by
  unfold FailureRecovery.once at h
  rw [apiPage_eq, hworker] at h
  simp only [bind, Except.bind, workerPage_eq] at h
  obtain rfl := Except.ok.inj h
  refine ⟨rfl, ?_⟩
  unfold Keyset.scanNext
  dsimp only
  split_ifs
  · rw [Option.map_map]
    rfl
  · rfl

variable {sights : ℕ → Sight} {cursors : ℕ → Cursors} {passed : ℕ → Passed}

/-- A request that stays blocked is captured, from any call on, within a number of calls that
depends on how many requests are blocked in the meantime. -/
theorem Calls.request_reached (h : Calls B sights cursors passed) {K : Finset Uuid}
    (hK : ∀ n, ∀ id ∈ blockedIds (sights n).requests, id ∈ K) {id : Uuid}
    (hid : ∀ n, id ∈ blockedIds (sights n).requests) (n : ℕ) :
    ∃ i < n + 2 * K.card + 2, n ≤ i ∧ id ∈ (passed i).requests := by
  have hscan : Keyset.Scan (fun id : Uuid => id) B.batchSize K
    (fun n => blockedIds (sights n).requests)
      fun n => (cursors n).api := by
    refine ⟨fun n => blockedIds_nodup _, hK, fun n => ?_⟩
    obtain ⟨hrequests, hnext⟩ := once_requests (h.once n)
    rw [h.next n, hnext, hrequests]
    rfl
  obtain ⟨i, hi, hni, hreach⟩ := hscan.reached B.range.1 hid n
  refine ⟨i, hi, hni, ?_⟩
  rw [(once_requests (h.once i)).1]
  exact hreach

/-- A command that stays failed is captured, from any call on, within a number of calls that depends
on how many commands are failed in the meantime. -/
theorem Calls.command_reached (h : Calls B sights cursors passed) {dbs : ℕ → Worker.Db}
    (hworker : ∀ n, (sights n).worker = some (dbs n))
    (hrouted : ∀ n, Worker.Routed (dbs n) (dbs n).lastOf) {K : Finset (ℕ ×ₗ ℕ)}
    (hK : ∀ n, ∀ row ∈ failedRows (dbs n), row.key ∈ K) {row : FailedRow}
    (hrow : ∀ n, row ∈ failedRows (dbs n)) (n : ℕ) :
    ∃ i < n + 2 * K.card + 2, n ≤ i ∧ row.commandId ∈ (passed i).commands := by
  have hscan : Keyset.Scan FailedRow.key B.batchSize K (fun n => failedRows (dbs n))
      fun n => (cursors n).worker.map toLex := by
    refine ⟨fun n => failedRows_nodup (hrouted n), hK, fun n => ?_⟩
    rw [h.next n]
    exact (once_commands (h.once n) (hworker n)).2
  obtain ⟨i, hi, hni, hreach⟩ := hscan.reached B.range.1 hrow n
  refine ⟨i, hi, hni, ?_⟩
  rw [(once_commands (h.once i) (hworker i)).1]
  exact List.mem_map_of_mem hreach

/-- A call never raises: the budget is a page size that the stores take. -/
theorem once_ok (cursors : Cursors) (sight : Sight) :
    ∃ p, FailureRecovery.once B cursors sight = .ok p := by
  unfold FailureRecovery.once
  rw [apiPage_eq]
  cases sight.worker with
  | none => exact ⟨_, rfl⟩
  | some db =>
    simp only [bind, Except.bind, workerPage_eq]
    exact ⟨_, rfl⟩

/-- Calls go on from any cursors. -/
theorem exists_calls (B : Budget) (start : Cursors) (sights : ℕ → Sight) :
    ∃ cursors passed, cursors 0 = start ∧ Calls B sights cursors passed := by
  have hok := fun (cursors : Cursors) n => once_ok (B := B) cursors (sights n)
  choose pass hpass using hok
  refine ⟨fun n => n.rec start fun n cursors => (pass cursors n).cursors,
    fun n => pass (n.rec start fun n cursors => (pass cursors n).cursors) n, rfl,
    fun n => ?_, fun n => rfl⟩
  exact hpass _ n

/-! ## Keyset paging is complete -/

/-- What it means that keyset paging is complete. -/
structure Complete (wide : List UInt8 → Option PyText) (spell : PyJson .value → PyText)
    (cfg : Worker.Config) : Prop where
  /-- The blocked cleanups, of an operator's request. -/
  cleanups :
    ∀ (operators : List String) (actor : String) (t : Stamped Stores.CleanupRow) (limit : ℤ),
    actor ∈ operators → 1 ≤ limit → limit ≤ 100 →
      Keyset.ReadsAll
        (fun cursor =>
          (FailureOperations.blocked operators wide t actor cursor limit).map Page.read)
        (t.rows.entries.filter fun e => e.2.2.state = .blocked)
        fun a b => beforePosition b (position a) = true
  /-- The jobs of stream maintenance. -/
  jobs : ∀ (operators : List String) (actor : String) (t : Stamped Maintenance.Job) (limit : ℤ),
    actor ∈ operators → 1 ≤ limit → limit ≤ 100 →
      Keyset.ReadsAll
        (fun cursor =>
          (StreamMaintenanceOperations.jobs operators wide t actor cursor limit).map Page.read)
        t.rows.entries fun a b => beforePosition b (position a) = true
  /-- The lifecycle actions of a workflow. -/
  actions : ∀ (t : Stamped Workflows.ActionRow) (workflowId : Uuid) (limit : ℕ), 1 ≤ limit →
    Keyset.ReadsAll
      (fun before => (.ok (WorkflowLifecycleRepository.actions t workflowId before limit) :
        Except PageError _))
      (t.rows.entries.filter fun e => e.2.2.workflowId = workflowId)
      fun a b => beforePosition b (position a) = true
  /-- The versions of a workflow. -/
  versions : ∀ (t : WorkflowVersions) (workflowId : Uuid) (limit : ℕ), 1 ≤ limit →
    Keyset.ReadsAll
      (fun before => (.ok (WorkflowLifecycleRepository.versions t workflowId before limit) :
        Except PageError _))
      (t.rows.entries.filter fun e => e.2.workflowId = workflowId)
      fun a b => b.2.version < a.2.version
  /-- The dead letters of a stream. -/
  deadLetters : ∀ (s : Transport.FieldStream) (limit : ℤ), Transport.WellFormed spell s →
    1 ≤ limit → limit ≤ 1000 →
      Keyset.Walk (Transport.listEntries spell s limit) none
        (s.entries.map (Transport.entryOf spell))
  /-- The blocked requests, read by the recovery. -/
  requests : ∀ (B : Budget) (requests : Table Uuid RequestRow),
    Keyset.ReadsAll (apiPage B requests) (blockedIds requests) fun a b => a < b
  /-- The failed commands of the worker, read by the recovery. -/
  commands : ∀ (B : Budget) (s : Worker.State), (Worker.worker cfg).Reachable s →
    Keyset.ReadsAll (workerPage B s.db) (failedRows s.db) fun a b => a.key < b.key
  /-- A cursor is decoded to what was encoded. -/
  cursors : ∀ (time : DateTime) (id : Uuid), time.offset ≠ none → id < 2 ^ 128 →
    blockedFailure.decode wide (blockedFailure.encode time id) = .ok (time, id)
  /-- Calls of the recovery go on for ever, from any cursors. -/
  calls : ∀ (B : Budget) (start : Cursors) (sights : ℕ → Sight),
    ∃ cursors passed, cursors 0 = start ∧ Calls B sights cursors passed
  /-- A request that stays blocked is captured. -/
  capturesRequest : ∀ (B : Budget) (sights : ℕ → Sight) (cursors : ℕ → Cursors)
    (passed : ℕ → Passed), Calls B sights cursors passed →
    ∀ (K : Finset Uuid) (id : Uuid), (∀ n, ∀ id ∈ blockedIds (sights n).requests, id ∈ K) →
      (∀ n, id ∈ blockedIds (sights n).requests) →
        ∀ n, ∃ i < n + 2 * K.card + 2, n ≤ i ∧ id ∈ (passed i).requests
  /-- A command that stays failed is captured. -/
  capturesCommand : ∀ (B : Budget) (sights : ℕ → Sight) (cursors : ℕ → Cursors)
    (passed : ℕ → Passed), Calls B sights cursors passed →
    ∀ (workers : ℕ → Worker.State), (∀ n, (Worker.worker cfg).Reachable (workers n)) →
      (∀ n, (sights n).worker = some (workers n).db) →
      ∀ (K : Finset (ℕ ×ₗ ℕ)) (row : FailedRow),
        (∀ n, ∀ row ∈ failedRows (workers n).db, row.key ∈ K) →
        (∀ n, row ∈ failedRows (workers n).db) →
          ∀ n, ∃ i < n + 2 * K.card + 2, n ≤ i ∧ row.commandId ∈ (passed i).commands

/-- Keyset paging is complete. Over any content of its table, the cursors of each pager lead from
the first page through every matching row, once and in the declared order, to the end or back to the
start; what is decoded of an encoded cursor is its timestamp and its id; and rows that go on failing
are captured by the recovery within a number of calls that depends only on how many rows are failing
in the meantime, whatever becomes of the other rows and from any cursors on. -/
theorem pages_complete (wide : List UInt8 → Option PyText) (spell : PyJson .value → PyText)
    (cfg : Worker.Config) : Complete wide spell cfg := by
  have hrouted : ∀ s, (Worker.worker cfg).Reachable s → Worker.Routed s.db s.db.lastOf :=
    fun s hs => (Worker.reachable_routing hs).routed
  constructor
  case cleanups =>
    intro operators actor t limit hactor hlow hhigh
    have hwalk := walk_servicePage t (fun row => decide (row.state = .blocked)) blockedFailure_sound
      wide ⟨hlow, hhigh⟩
    refine ⟨_, ?_, wantedRows_perm t fun row => row.state = .blocked, wantedRows_sorted t _⟩
    unfold FailureOperations.blocked
    rw [decide_eq_true hactor]
    exact hwalk
  case jobs =>
    intro operators actor t limit hactor hlow hhigh
    have hwalk := walk_servicePage t (fun _ => true) streamMaintenance_sound wide ⟨hlow, hhigh⟩
    have hperm := wantedRows_perm t fun _ => true
    rw [List.filter_true] at hperm
    refine ⟨_, ?_, hperm, wantedRows_sorted t _⟩
    unfold StreamMaintenanceOperations.jobs
    rw [decide_eq_true hactor]
    exact hwalk
  case actions =>
    intro t workflowId limit hlimit
    exact ⟨_, walk_actions t workflowId hlimit,
      wantedRows_perm t fun row => row.workflowId = workflowId, wantedRows_sorted t _⟩
  case versions =>
    intro t workflowId limit hlimit
    refine ⟨_, walk_versions t workflowId hlimit, Keyset.ordered_perm _ _, ?_⟩
    exact (Keyset.ordered_strict _ (versions_nodup t workflowId)).imp fun h =>
      OrderDual.toDual_lt_toDual.mp h
  case deadLetters =>
    intro s limit hwell hlow hhigh
    exact Transport.walk_listEntries hwell ⟨hlow, hhigh⟩
  case requests =>
    intro B requests
    exact ⟨_, walk_apiPage requests, Keyset.ordered_perm _ _,
      Keyset.ordered_strict _ (blockedIds_nodup requests)⟩
  case commands =>
    intro B s hs
    exact ⟨_, walk_workerPage (hrouted s hs), Keyset.ordered_perm _ _,
      Keyset.ordered_strict _ (failedRows_nodup (hrouted s hs))⟩
  case cursors =>
    intro time id haware hid
    exact Format.decode_encode blockedFailure_sound wide haware hid
  case calls => exact exists_calls
  case capturesRequest =>
    intro B sights cursors passed hcalls K id hK hid n
    exact hcalls.request_reached hK hid n
  case capturesCommand =>
    intro B sights cursors passed hcalls workers hreach hworker K row hK hrow n
    exact hcalls.command_reached hworker (fun n => hrouted _ (hreach n)) hK hrow n

namespace Sample

/-- A time in a zone with an offset of five and a half hours. -/
def time : DateTime := ⟨2024, 2, 29, 23, 1, 59, 120, some 19800000000, by decide⟩

/-- A job. -/
def job : Maintenance.Job :=
  { streamAlias := "agent_commands", streamKey := "commands", action := .plan,
    idempotencyKey := "k",
    requestHash := 1, reason := "r", retentionSeconds := 1, minimumRetainedEntries := 1,
    nextAttemptAt := 0, createdBy := "operator", updatedBy := "operator" }

/-- Three jobs of one time. -/
def jobs : Stamped Maintenance.Job where
  rows := ⟨[(2, time, job), (3, time, job), (1, time, job)], by decide⟩
  uuids := by simp
  aware := by simp [time]

/-- A blocked request. -/
def blocked : RequestRow where
  taskId := 7
  sessionId := 1
  command := ⟨61, Stores.Sample.turn, .start⟩
  fingerprint := 61
  targetNode := .beginTask
  baseCheckpointId := none
  state := .blocked
  nextAttemptAt := 0

/-- Two blocked requests, and no worker store. -/
def sight : Sight where
  requests := ⟨[(62, blocked), (61, blocked)], by decide⟩
  worker := none

end Sample

/-- Three jobs of one time are read one at a time by an operator, a cursor is read back, and of two
blocked requests, one at a time, the second is captured within six calls, wherever the first call
begins. -/
theorem pages_complete_one_time :
    Keyset.ReadsAll
      (fun cursor => (StreamMaintenanceOperations.jobs ["operator"] (fun _ => none) Sample.jobs
        "operator" cursor 1).map Page.read)
      Sample.jobs.rows.entries (fun a b => beforePosition b (position a) = true) ∧
    blockedFailure.decode (fun _ => none) (blockedFailure.encode Sample.time 7) =
      .ok (Sample.time, 7) ∧
    ∀ start, ∃ cursors passed, cursors 0 = start ∧
      Calls ⟨1, by decide⟩ (fun _ => Sample.sight) cursors passed ∧
      ∃ i < 6, 62 ∈ (passed i).requests := by
  have h := pages_complete (fun _ => none) (fun _ => []) Worker.sampleConfig
  refine ⟨h.jobs ["operator"] "operator" Sample.jobs 1 (by decide) (by decide) (by decide),
    h.cursors Sample.time 7 (by decide) (by decide), fun start => ?_⟩
  obtain ⟨cursors, passed, hstart, hcalls⟩ :=
    h.calls ⟨1, by decide⟩ start fun _ => Sample.sight
  obtain ⟨i, hi, -, hcaptured⟩ := h.capturesRequest _ _ cursors passed hcalls {61, 62} 62
    (fun _ => by decide) (fun _ => by decide) 0
  exact ⟨cursors, passed, hstart, hcalls, i, hi, hcaptured⟩

end ExAgent.Pages
