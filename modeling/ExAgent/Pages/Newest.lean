import Mathlib.Data.Prod.Lex
import ExAgent.Lib.Keyset
import ExAgent.Lib.Table
import ExAgent.Maintenance.Jobs
import ExAgent.Pages.Cursors
import ExAgent.Stores.Tables
import ExAgent.Workflows.Tables

/-!
# Pages from the newest row on

The pagers that read a table by a timestamp and an id, both descending: `FailureStore.blocked_page`
under `FailureOperations.blocked`, `StreamMaintenanceStore.page` under
`StreamMaintenanceOperations.jobs`, and `WorkflowLifecycleRepository.actions`; and
`WorkflowLifecycleRepository.versions`, which reads by the version number. A page looks one row
ahead. The services of the first two write the position of the last row into a text; the repository
returns it as it is. The views of a page copy columns of the rows and are left out: an item of a
page is its row.
-/

namespace ExAgent.Pages

open Lib
open Stores (CleanupRow)
open Workflows (ActionRow VersionRow)
open Maintenance (Job)

/-! ## Tables with a timestamp -/

/-- A row with its id and its timestamp. -/
abbrev StampedRow (ρ : Type) := Uuid × DateTime × ρ

/-- A position in such a table: a timestamp and an id. -/
abbrev Position := DateTime × Uuid

/-- A table by a UUID with a column `timestamptz NOT NULL`. Rows can share a timestamp. -/
structure Stamped (ρ : Type) where
  rows : Table Uuid (DateTime × ρ)
  uuids : ∀ e ∈ rows.entries, e.1 < 2 ^ 128
  aware : ∀ e ∈ rows.entries, e.2.1.offset ≠ none

variable {ρ : Type}

/-- The condition of a page on its rows: `at < t OR (at = t AND id < i)`. -/
def beforePosition (row : StampedRow ρ) (position : Position) : Bool :=
  row.2.1.instant < position.1.instant ∨
    row.2.1.instant = position.1.instant ∧ row.1 < position.2

/-- `ORDER BY at DESC, id DESC`. -/
def newestFirst (a b : StampedRow ρ) : Bool :=
  b.2.1.instant < a.2.1.instant ∨ b.2.1.instant = a.2.1.instant ∧ b.1 ≤ a.1

/-- The newest `n` of the rows that are wanted, before a position. -/
def selectNewest (t : Stamped ρ) (wanted : ρ → Bool) (before : Option Position) (n : ℕ) :
    List (StampedRow ρ) :=
  ((t.rows.entries.filter fun e => wanted e.2.2 ∧ ∀ p ∈ before, beforePosition e p = true).mergeSort
    newestFirst).take n

/-- Where a row stands: the newest first. -/
def place (row : StampedRow ρ) : OrderDual (ℤ ×ₗ ℕ) :=
  OrderDual.toDual (toLex (row.2.1.instant, row.1))

/-- The position of a row. -/
def position (row : StampedRow ρ) : Position := (row.2.1, row.1)

/-- A row is before another place exactly when the query says so. -/
theorem place_lt_iff (a b : StampedRow ρ) :
    place a < place b ↔ beforePosition b (position a) = true := by
  unfold place beforePosition position
  rw [OrderDual.toDual_lt_toDual, Prod.Lex.toLex_lt_toLex, decide_eq_true_eq]

/-- The order of the places is that of the query. -/
theorem place_le_iff (a b : StampedRow ρ) : place a ≤ place b ↔ newestFirst a b = true := by
  unfold place newestFirst
  rw [OrderDual.toDual_le_toDual, Prod.Lex.toLex_le_toLex, decide_eq_true_eq]

/-- The wanted rows of a table, the newest first. -/
def wantedRows (t : Stamped ρ) (wanted : ρ → Bool) : List (StampedRow ρ) :=
  Keyset.ordered place (t.rows.entries.filter fun e => wanted e.2.2)

variable {t : Stamped ρ} {wanted : ρ → Bool}

/-- Rows of a table have places of their own. -/
theorem places_nodup (t : Stamped ρ) (p : StampedRow ρ → Bool) :
    ((t.rows.entries.filter p).map place).Nodup := by
  have hids : (t.rows.entries.map Prod.fst).Nodup := t.rows.nodup
  have hall : (t.rows.entries.map place).Nodup := by
    rw [List.Nodup, List.pairwise_map] at hids ⊢
    refine hids.imp fun hne heq => hne ?_
    exact congrArg (fun p => (ofLex (OrderDual.ofDual p)).2) heq
  exact hall.sublist (List.filter_sublist.map _)

/-- The wanted rows are those of the table, each once. -/
theorem wantedRows_perm (t : Stamped ρ) (wanted : ρ → Bool) :
    (wantedRows t wanted).Perm (t.rows.entries.filter fun e => wanted e.2.2) :=
  Keyset.ordered_perm place _

/-- They stand in the declared order. -/
theorem wantedRows_sorted (t : Stamped ρ) (wanted : ρ → Bool) :
    (wantedRows t wanted).Pairwise fun a b => beforePosition b (position a) = true :=
  (Keyset.ordered_strict place (places_nodup t _)).imp fun h => (place_lt_iff _ _).mp h

/-- The order of the query is one of a key. -/
theorem newestFirst_eq :
    (newestFirst : StampedRow ρ → StampedRow ρ → Bool) = fun a b => decide (place a ≤ place b) := by
  funext a b
  rw [Bool.eq_iff_iff, decide_eq_true_eq]
  exact (place_le_iff a b).symm

/-- A page of the first rows. -/
theorem selectNewest_first (n : ℕ) :
    selectNewest t wanted none n = (wantedRows t wanted).take n := by
  have hfilter : (t.rows.entries.filter fun e =>
      decide (wanted e.2.2 = true ∧ ∀ p ∈ (none : Option Position), beforePosition e p = true)) =
      t.rows.entries.filter fun e => wanted e.2.2 :=
    List.filter_congr fun e _ => by simp
  unfold selectNewest wantedRows Keyset.ordered
  rw [hfilter, newestFirst_eq]

/-- A page of the rows after one of them. -/
theorem selectNewest_next (row : StampedRow ρ) (n : ℕ) :
    selectNewest t wanted (some (position row)) n =
      (Keyset.after place (some (place row)) (wantedRows t wanted)).take n := by
  have hfilter : (t.rows.entries.filter fun e =>
      decide (wanted e.2.2 = true ∧ ∀ p ∈ some (position row), beforePosition e p = true)) =
      (t.rows.entries.filter fun e => wanted e.2.2).filter fun e =>
        decide (∀ c ∈ some (place row), c < place e) := by
    rw [List.filter_filter]
    refine List.filter_congr fun e _ => ?_
    rw [Bool.eq_iff_iff]
    simp [place_lt_iff, and_comm]
  unfold selectNewest Keyset.after wantedRows
  rw [hfilter, newestFirst_eq]
  exact congrArg (List.take n) (Keyset.ordered_filter (places_nodup t _) _)

/-! ## The services of blocked failures and of maintenance jobs -/

/-- What a service raises: a user who may not, a page size outside of 1 to 100, or a cursor. -/
inductive PageError
  | forbidden
  | pageSize
  | cursor (error : CursorError)
deriving DecidableEq

/-- A page with the cursor of the next one. -/
structure Page (α : Type) where
  items : List α
  nextCursor : Option PyText
  hasMore : Bool

/-- A store's page of at most 100 rows, and one row more. -/
def storePage (wanted : ρ → Bool) (t : Stamped ρ) (before : Option Position) (limit : ℤ) :
    Except PageError (List (StampedRow ρ)) :=
  if ¬(1 ≤ limit ∧ limit ≤ 100) then .error .pageSize
  else .ok (selectNewest t wanted before (limit + 1).toNat)

/-- `FailureStore.blocked_page`. -/
def FailureStore.blockedPage (t : Stamped CleanupRow) (before : Option Position) (limit : ℤ) :
    Except PageError (List (StampedRow CleanupRow)) :=
  storePage (fun row => row.state = .blocked) t before limit

/-- `StreamMaintenanceStore.page`. -/
def StreamMaintenanceStore.page (t : Stamped Job) (before : Option Position) (limit : ℤ) :
    Except PageError (List (StampedRow Job)) :=
  storePage (fun _ => true) t before limit

/-- `_decode_cursor(cursor) if cursor else None`. -/
def positionOf (f : Format) (wide : List UInt8 → Option PyText) (cursor : Option PyText) :
    Except PageError (Option Position) :=
  match cursor with
  | some (c :: rest) =>
    match f.decode wide (c :: rest) with
    | .ok position => .ok (some position)
    | .error error => .error (.cursor error)
  | _ => .ok none

/-- A service's page: the rows of the store up to the limit, and the cursor of the last of them
where the store has one more. -/
def servicePage (f : Format) (wide : List UInt8 → Option PyText) (authorized : Bool)
    (store : Option Position → ℤ → Except PageError (List (StampedRow ρ))) (cursor : Option PyText)
    (limit : ℤ) : Except PageError (Page (StampedRow ρ)) :=
  if authorized = false then .error .forbidden
  else
    match positionOf f wide cursor with
    | .error error => .error error
    | .ok before =>
      match store before limit with
      | .error error => .error error
      | .ok rows =>
        let hasMore := decide (limit.toNat < rows.length)
        let visible := rows.take limit.toNat
        .ok ⟨visible, if hasMore then visible.getLast?.map fun row =>
          f.encode row.2.1 row.1 else none, hasMore⟩

/-- `FailureOperations.blocked`. -/
def FailureOperations.blocked (operators : List String) (wide : List UInt8 → Option PyText)
    (t : Stamped CleanupRow) (actor : String) (cursor : Option PyText) (limit : ℤ) :
    Except PageError (Page (StampedRow CleanupRow)) :=
  servicePage blockedFailure wide (decide (actor ∈ operators))
    (FailureStore.blockedPage t) cursor limit

/-- `StreamMaintenanceOperations.jobs`. -/
def StreamMaintenanceOperations.jobs (operators : List String) (wide : List UInt8 → Option PyText)
    (t : Stamped Job) (actor : String) (cursor : Option PyText) (limit : ℤ) :
    Except PageError (Page (StampedRow Job)) :=
  servicePage streamMaintenance wide (decide (actor ∈ operators))
    (StreamMaintenanceStore.page t) cursor
    limit

/-- The items and the cursor of a page. -/
def Page.read {α : Type} (page : Page α) : List α × Option PyText := (page.items, page.nextCursor)

/-- The empty text is no cursor. -/
theorem decode_nil (f : Format) (wide : List UInt8 → Option PyText) : f.decode wide
    [] = .error .invalid :=
  rfl

/-- The cursor of a row is read as its position. -/
theorem positionOf_encode {f : Format} (hf : f.Sound) (wide : List UInt8 → Option PyText)
    {row : StampedRow ρ} (hrow : row ∈ t.rows.entries) :
    positionOf f wide (some (f.encode row.2.1 row.1)) = .ok (some (position row)) := by
  have hdecode := Format.decode_encode hf wide (t.aware row hrow) (t.uuids row hrow)
  unfold positionOf
  cases hcursor : f.encode row.2.1 row.1 with
  | nil =>
    rw [hcursor, decode_nil] at hdecode
    cases hdecode
  | cons c rest =>
    rw [hcursor] at hdecode
    simp only [hdecode]
    rfl

/-- A page of a service from the rows that are left. -/
theorem servicePage_eq (f : Format) (wide : List UInt8 → Option PyText) {cursor : Option PyText}
    {limit : ℤ} (hlimit : 1 ≤ limit ∧ limit ≤ 100) {before : Option Position}
    (hbefore : positionOf f wide cursor = .ok before) {rows : List (StampedRow ρ)}
    (hrows : ∀ n, selectNewest t wanted before n = rows.take n) :
    (servicePage f wide true (storePage wanted t) cursor limit).map Page.read =
      .ok ((Keyset.pageOf limit.toNat rows).1.map id,
        (Keyset.pageOf limit.toNat rows).2.map fun row => f.encode row.2.1 row.1) := by
  have hsucc : (limit + 1).toNat = limit.toNat + 1 := by omega
  unfold servicePage storePage Keyset.pageOf
  rw [if_neg (by simp), hbefore]
  dsimp only
  rw [if_neg (not_not.mpr hlimit), hrows, hsucc]
  simp only [Except.map, Page.read, decide_eq_true_eq, List.map_id]
  congr 2
  split_ifs <;> rfl

/-- Following the cursors of a service reads the wanted rows once, in the declared order. -/
theorem walk_servicePage (t : Stamped ρ) (wanted : ρ → Bool) {f : Format} (hf : f.Sound)
    (wide : List UInt8 → Option PyText) {limit : ℤ} (hlimit : 1 ≤ limit ∧ limit ≤ 100) :
    Keyset.Walk
      (fun cursor => (servicePage f wide true (storePage wanted t) cursor limit).map Page.read)
      none (wantedRows t wanted) := by
  have hpos : 0 < limit.toNat := by omega
  have hsorted : (wantedRows t wanted).Pairwise fun a b => place a < place b :=
    Keyset.ordered_strict place (places_nodup t _)
  have hwalk : Keyset.Walk
      (fun cursor => (servicePage f wide true (storePage wanted t) cursor limit).map Page.read)
      none ((wantedRows t wanted).map id) := by
    refine Keyset.walk_of_pages (Keyset.splits_pageOf hpos) hsorted
      (servicePage_eq f wide hlimit rfl selectNewest_first) fun row hrow => ?_
    have hmem : row ∈ t.rows.entries :=
      List.mem_of_mem_filter ((wantedRows_perm t wanted).mem_iff.mp hrow)
    exact servicePage_eq f wide hlimit (positionOf_encode hf wide hmem) (selectNewest_next row)
  rwa [List.map_id] at hwalk

/-! ## The repository of workflows -/

/-- `WorkflowLifecycleRepository.actions`. -/
def WorkflowLifecycleRepository.actions (t : Stamped ActionRow) (workflowId : Uuid)
    (before : Option Position) (limit : ℕ) : List (StampedRow ActionRow) × Option Position :=
  let rows := selectNewest t (fun row => row.workflowId = workflowId) before (limit + 1)
  let hasMore := limit < rows.length
  let visible := rows.take limit
  (visible, if hasMore then visible.getLast?.map position else none)

/-- The versions of the workflows: a version number of a workflow has one row. -/
structure WorkflowVersions where
  rows : Table Uuid VersionRow
  unique : (rows.entries.map fun e => (e.2.workflowId, e.2.version)).Nodup

/-- `WorkflowLifecycleRepository.versions`. -/
def WorkflowLifecycleRepository.versions (t : WorkflowVersions) (workflowId : Uuid)
    (beforeVersion : Option ℕ) (limit : ℕ) : List (Uuid × VersionRow) × Option ℕ :=
  let rows := ((t.rows.entries.filter fun e =>
    e.2.workflowId = workflowId ∧ ∀ v ∈ beforeVersion, e.2.version < v).mergeSort
      fun a b => b.2.version ≤ a.2.version).take (limit + 1)
  let hasMore := limit < rows.length
  let visible := rows.take limit
  (visible, if hasMore then visible.getLast?.map (·.2.version) else none)

/-- The versions of a workflow, the latest first. -/
def versionsOf (t : WorkflowVersions) (workflowId : Uuid) : List (Uuid × VersionRow) :=
  Keyset.ordered (fun e => OrderDual.toDual e.2.version)
    (t.rows.entries.filter fun e => e.2.workflowId = workflowId)

/-- The versions of a Workflow are numbered apart. -/
theorem versions_nodup (t : WorkflowVersions) (workflowId : Uuid) :
    ((t.rows.entries.filter fun e => e.2.workflowId = workflowId).map
      fun e => OrderDual.toDual e.2.version).Nodup := by
  have hunique := t.unique
  rw [List.Nodup, List.pairwise_map] at hunique
  rw [List.Nodup, List.pairwise_map]
  refine List.Pairwise.imp_of_mem (fun {a b} ha hb hne heq => hne ?_)
    (hunique.sublist List.filter_sublist)
  have ha' : a.2.workflowId = workflowId := of_decide_eq_true (List.mem_filter.mp ha).2
  have hb' : b.2.workflowId = workflowId := of_decide_eq_true (List.mem_filter.mp hb).2
  have hworkflow : a.2.workflowId = b.2.workflowId := ha'.trans hb'.symm
  exact Prod.ext hworkflow (OrderDual.toDual.injective heq)

/-- Following the positions of `actions` reads the actions of a workflow once, in the declared
order. -/
theorem walk_actions (t : Stamped ActionRow) (workflowId : Uuid) {limit : ℕ} (hlimit : 1 ≤ limit) :
    Keyset.Walk
      (fun before => (.ok (WorkflowLifecycleRepository.actions t workflowId before limit) :
      Except PageError _)) none (wantedRows t fun row => row.workflowId = workflowId) := by
  have hsorted : (wantedRows t fun row => decide (row.workflowId = workflowId)).Pairwise
      fun a b => place a < place b := Keyset.ordered_strict place (places_nodup t _)
  have hpage : ∀ (before : Option Position) (rows : List (StampedRow ActionRow)),
      (∀ n, selectNewest t (fun row => row.workflowId = workflowId) before n = rows.take n) →
      WorkflowLifecycleRepository.actions t workflowId before limit =
        ((Keyset.pageOf limit rows).1.map id, (Keyset.pageOf limit rows).2.map position) := by
    intro before rows hrows
    unfold WorkflowLifecycleRepository.actions Keyset.pageOf
    simp only [hrows, List.map_id]
    congr 1
    split_ifs <;> rfl
  have hwalk : Keyset.Walk (fun before =>
      (.ok (WorkflowLifecycleRepository.actions t workflowId before limit) :
        Except PageError _)) none
      ((wantedRows t fun row => row.workflowId = workflowId).map id) :=
    Keyset.walk_of_pages (Keyset.splits_pageOf hlimit) hsorted
      (congrArg Except.ok (hpage none _ selectNewest_first)) fun row _ =>
        congrArg Except.ok (hpage (some (position row)) _ (selectNewest_next row))
  rwa [List.map_id] at hwalk

/-- Following the numbers of `versions` reads the versions of a workflow once, the latest first. -/
theorem walk_versions (t : WorkflowVersions) (workflowId : Uuid) {limit : ℕ} (hlimit : 1 ≤ limit) :
    Keyset.Walk
      (fun before => (.ok (WorkflowLifecycleRepository.versions t workflowId before limit) :
      Except PageError _)) none (versionsOf t workflowId) := by
  have hnodup := versions_nodup t workflowId
  have hsorted : (versionsOf t workflowId).Pairwise
      fun a b => OrderDual.toDual a.2.version < OrderDual.toDual b.2.version :=
    Keyset.ordered_strict _ hnodup
  -- A page is the general one, of the rows before the given number.
  have hpage : ∀ (before : Option ℕ) (rows : List (Uuid × VersionRow)),
      (Keyset.ordered (fun e => OrderDual.toDual e.2.version)
        (t.rows.entries.filter fun e =>
          decide (e.2.workflowId = workflowId ∧ ∀ v ∈ before, e.2.version < v)) = rows) →
      WorkflowLifecycleRepository.versions t workflowId before limit =
        ((Keyset.pageOf limit rows).1.map id, (Keyset.pageOf limit rows).2.map (·.2.version)) := by
    intro before rows hrows
    have horder : (fun a b : Uuid × VersionRow => decide (b.2.version ≤ a.2.version)) =
        fun a b => decide (OrderDual.toDual a.2.version ≤ OrderDual.toDual b.2.version) := rfl
    unfold WorkflowLifecycleRepository.versions Keyset.pageOf
    rw [← hrows, horder]
    unfold Keyset.ordered
    simp only [List.map_id]
    congr 1
    split_ifs <;> rfl
  -- The first page is cut from all versions, and the next one from those after the last row.
  have hfirst : Keyset.ordered (fun e => OrderDual.toDual e.2.version)
      (t.rows.entries.filter fun e => decide (e.2.workflowId = workflowId ∧
        ∀ v ∈ (none : Option ℕ), e.2.version < v)) = versionsOf t workflowId := by
    unfold versionsOf
    congr 1
    exact List.filter_congr fun e _ => by simp
  have hnext : ∀ row : Uuid × VersionRow, Keyset.ordered (fun e => OrderDual.toDual e.2.version)
      (t.rows.entries.filter fun e => decide (e.2.workflowId = workflowId ∧
        ∀ v ∈ some row.2.version, e.2.version < v)) =
      Keyset.after (fun e => OrderDual.toDual e.2.version) (some (OrderDual.toDual row.2.version))
        (versionsOf t workflowId) := by
    intro row
    unfold versionsOf Keyset.after
    rw [← Keyset.ordered_filter hnodup, List.filter_filter]
    congr 1
    refine List.filter_congr fun e _ => ?_
    rw [Bool.eq_iff_iff]
    simp [and_comm]
  have hwalk : Keyset.Walk (fun before =>
      (.ok (WorkflowLifecycleRepository.versions t workflowId before limit) :
        Except PageError _)) none
      ((versionsOf t workflowId).map id) :=
    Keyset.walk_of_pages (Keyset.splits_pageOf hlimit) hsorted
      (congrArg Except.ok (hpage none _ hfirst)) fun row _ =>
        congrArg Except.ok (hpage (some row.2.version) _ (hnext row))
  rwa [List.map_id] at hwalk

end ExAgent.Pages
