import ExAgent.Lib.Transition
import ExAgent.Lib.Table

/-!
# Transactions under READ COMMITTED with row locks

A transaction is a sequence of statements. A plain `SELECT` sees what was committed when it runs; a
`SELECT … FOR UPDATE` waits until no other transaction holds the row, takes it, and sees its
committed value; the writes of a transaction become visible together when it commits, and a unique
index can refuse them. `UPDATE` and `DELETE … WHERE` find their rows in the snapshot of the
statement, lock them one by one and look again at the condition (`lockEach`). A lock is held to the
end of the transaction. A row that is absent cannot be locked.

`Server` runs any number of transactions, statement by statement and in any order; each can be lost
between two statements, with its locks and without its writes.

What is proved of a transaction is that its commit is one of the effects its contract names
(`Txn.Safe`), with assertions about the database that the other transactions keep. They keep what
their own contracts imply, given that they do not hold the rows that this one holds: that is the
only use of the locks. `Server.moved` then says that a run of the server, statement by statement, is
a run of these effects.
-/

namespace ExAgent.Lib

/-- A transaction over databases `σ` with rows `ρ` under keys `κ`, with result `α`. -/
inductive Txn (σ κ ρ α : Type) : Type
  /-- The end without writes: a value returned, or an exception and a rollback. -/
  | ret (a : α)
  /-- A plain read. -/
  | select (next : σ → Txn σ κ ρ α)
  /-- `SELECT … FOR UPDATE` of a row by its key. -/
  | lock (k : κ) (next : Option ρ → Txn σ κ ρ α)
  /-- The writes and the commit. When a unique index refuses them, the transaction is rolled back
  and its caller goes on with `violated`. -/
  | commit (write : σ → Option σ) (a : α) (violated : Txn σ κ ρ α)

namespace Txn

variable {σ κ ρ α : Type}

/-- The rows of an `UPDATE` or `DELETE`: each key found by the statement is locked and its row
looked at again; the keys whose row still meets the condition are the ones the statement writes. -/
def lockEach (meets : ρ → Bool) : List κ → List κ → (List κ → Txn σ κ ρ α) → Txn σ κ ρ α
  | [], taken, next => next taken
  | k :: ks, taken, next => .lock k fun r =>
      match r with
      | some r => if meets r then lockEach meets ks (k :: taken) next
          else lockEach meets ks taken next
      | none => lockEach meets ks taken next

/-- The transaction run alone, from its first statement to its end. -/
def exec (row : σ → κ → Option ρ) : Txn σ κ ρ α → σ → α × σ
  | .ret a, s => (a, s)
  | .select next, s => (next s).exec row s
  | .lock k next, s => (next (row s k)).exec row s
  | .commit write a violated, s =>
    match write s with
    | some s' => (a, s')
    | none => violated.exec row s

variable (row : σ → κ → Option ρ)

/-- The locks after a `FOR UPDATE`: an absent row is not locked. -/
def acquire (s : σ) (k : κ) (held : List κ) : List κ :=
  match row s k with
  | some _ => k :: held
  | none => held

/-- An assertion that the commits of others keep while the rows `held` are locked. `rely held'` says
what a transaction that holds `held'` can commit. -/
def Stable (rely : List κ → σ → σ → Prop) (held : List κ) (P : σ → Prop) : Prop :=
  ∀ s s' held', P s → (∀ k ∈ held, k ∉ held') → rely held' s s' → P s'

/-- The contract of a transaction that holds `held` and knows `P`: a commit is one of the effects
`own`, with the locks it is made under and its result. -/
def Safe (rely : List κ → σ → σ → Prop) (own : List κ → α → σ → σ → Prop) :
    Txn σ κ ρ α → List κ → (σ → Prop) → Prop
  | .ret _, _, _ => True
  | .select next, held, P =>
    ∀ s, P s → ∃ Q, Stable rely held Q ∧ Q s ∧ (next s).Safe rely own held Q
  | .lock k next, held, P =>
    ∀ s, P s → ∃ Q, Stable rely (acquire row s k held) Q ∧ Q s ∧
      (next (row s k)).Safe rely own (acquire row s k held) Q
  | .commit write a violated, held, P =>
    ∀ s, P s → (∀ s', write s = some s' → own held a s s') ∧
      (write s = none → violated.Safe rely own [] fun _ => True)

/-! ## The rules -/

section Rules

variable {row} {rely : List κ → σ → σ → Prop} {own : List κ → α → σ → σ → Prop}
variable {held : List κ} {P Q : σ → Prop}

/-- What is kept under fewer locks is kept under more. -/
theorem Stable.mono (h : Stable rely held P) {more : List κ} (hm : ∀ k ∈ held, k ∈ more) :
    Stable rely more P := by
  intro s s' held' hP hd hr
  exact h s s' held' hP (fun k hk => hd k (hm k hk)) hr

/-- Two stable conditions are stable together. -/
theorem Stable.and (hP : Stable rely held P) (hQ : Stable rely held Q) :
    Stable rely held fun s => P s ∧ Q s := by
  intro s s' held' h hd hr
  exact ⟨hP s s' held' h.1 hd hr, hQ s s' held' h.2 hd hr⟩

/-- The trivial condition is stable. -/
theorem Stable.true : Stable rely held fun _ => True := by
  intro s s' held' _ _ _
  trivial

/-- Commits change only rows they hold, and rows that were absent. -/
def Frames (row : σ → κ → Option ρ) (rely : List κ → σ → σ → Prop) : Prop :=
  ∀ held s s', rely held s s' → ∀ k, k ∉ held → ∀ r, row s k = some r → row s' k = some r

/-- A locked row stays as it was read. -/
theorem Frames.stable (hf : Frames row rely) {k : κ} (hk : k ∈ held) (r : ρ) :
    Stable rely held fun s => row s k = some r := by
  intro s s' held' h hd hr
  exact hf held' s s' hr k (hd k hk) r h

/-- The rule of consequence. -/
theorem Safe.weaken {t : Txn σ κ ρ α} (h : t.Safe row rely own held P) (hPQ : ∀ s, Q s → P s) :
    t.Safe row rely own held Q := by
  cases t with
  | ret a => trivial
  | select next => exact fun s hs => h s (hPQ s hs)
  | lock k next => exact fun s hs => h s (hPQ s hs)
  | commit write a violated => exact fun s hs => h s (hPQ s hs)

/-- An assertion that never holds. -/
theorem Safe.of_false {t : Txn σ κ ρ α} (hP : ∀ s, ¬ P s) : t.Safe row rely own held P := by
  cases t with
  | ret a => trivial
  | select next => exact fun s hs => absurd hs (hP s)
  | lock k next => exact fun s hs => absurd hs (hP s)
  | commit write a violated => exact fun s hs => absurd hs (hP s)

/-- A read that is used only to decide how to go on. -/
theorem Safe.select {next : σ → Txn σ κ ρ α} (hP : Stable rely held P)
    (h : ∀ s, P s → (next s).Safe row rely own held P) :
    (Txn.select next).Safe row rely own held P :=
  fun s hs => ⟨P, hP, hs, h s hs⟩

/-- A lock: the row that is there stays as it was read; of an absent row the caller may know
more. -/
theorem Safe.lock_or {k : κ} {next : Option ρ → Txn σ κ ρ α} (hf : Frames row rely)
    (hP : Stable rely held P) (hQ : Stable rely held Q) (hPQ : ∀ s, P s → row s k = none → Q s)
    (hsome : ∀ r, (next (some r)).Safe row rely own (k :: held) fun s => P s ∧ row s k = some r)
    (hnone : (next none).Safe row rely own held Q) :
    (Txn.lock k next).Safe row rely own held P := by
  intro s hs
  cases hr : row s k with
  | none =>
    refine ⟨Q, ?_, hPQ s hs hr, ?_⟩
    · simpa only [acquire, hr] using hQ
    · simpa only [acquire, hr] using hnone
  | some r =>
    refine ⟨fun s => P s ∧ row s k = some r, ?_, ⟨hs, hr⟩, ?_⟩
    · simp only [acquire, hr]
      exact (hP.mono fun k hk => List.mem_cons_of_mem _ hk).and (hf.stable List.mem_cons_self r)
    · simpa only [acquire, hr] using hsome r

/-- The lock of a row in the table with the rows `f`. What is known afterwards is kept; of an absent
row the caller may know more. -/
theorem Safe.lockRow {β : Type} {k : κ} {f : β → ρ} {g : σ → Option β} {p : ρ → Option β}
    {next : Option β → Txn σ κ ρ α} (hf : Frames row rely) (hg : ∀ s, row s k = (g s).map f)
    (hp : ∀ b, p (f b) = some b) (hP : Stable rely held P) (hQ : Stable rely held Q)
    (hPQ : ∀ s, P s → g s = none → Q s)
    (hsome : ∀ b, Stable rely (k :: held) (fun s => P s ∧ g s = some b) →
      (next (some b)).Safe row rely own (k :: held) fun s => P s ∧ g s = some b)
    (hnone : (next none).Safe row rely own held Q) :
    (Txn.lock k fun r => next (r.bind p)).Safe row rely own held P := by
  have hrow : ∀ s b, g s = some b ↔ row s k = some (f b) := by
    intro s b
    rw [hg, Option.map_eq_some_iff]
    constructor
    · exact fun h => ⟨b, h, rfl⟩
    · rintro ⟨b', hb', hfb⟩
      have hb : some b' = some b := by rw [← hp b', hfb, hp b]
      rw [hb', hb]
  refine Safe.lock_or hf hP hQ (fun s hs hr => hPQ s hs ?_) (fun r => ?_) hnone
  · exact Option.map_eq_none_iff.mp ((hg s).symm.trans hr)
  by_cases hr : ∃ b, r = f b
  · obtain ⟨b, rfl⟩ := hr
    rw [Option.bind_some, hp]
    have hkept : Stable rely (k :: held) fun s => P s ∧ g s = some b := by
      simp only [hrow]
      exact (hP.mono fun j hj => List.mem_cons_of_mem _ hj).and (hf.stable List.mem_cons_self (f b))
    exact (hsome b hkept).weaken fun s hs => ⟨hs.1, (hrow s b).mpr hs.2⟩
  · refine Safe.of_false fun s hs => hr ?_
    obtain ⟨b, -, hfb⟩ := Option.map_eq_some_iff.mp ((hg s).symm.trans hs.2)
    exact ⟨b, hfb.symm⟩

/-- A commit whose refusal ends the call. -/
theorem Safe.commit {write : σ → Option σ} {a : α} {violated : Txn σ κ ρ α}
    (h : ∀ s s', P s → write s = some s' → own held a s s')
    (hv : violated.Safe row rely own [] fun _ => True) :
    (Txn.commit write a violated).Safe row rely own held P :=
  fun s hs => ⟨fun s' hw => h s s' hs hw, fun _ => hv⟩

/-- The keys whose row meets a condition. -/
def Meeting (row : σ → κ → Option ρ) (meets : ρ → Bool) (s : σ) (k : κ) : Prop :=
  ∃ r, row s k = some r ∧ meets r = true

/-- What a statement with a condition knows while it takes its rows: those taken meet the condition,
and no other row does except those still to be looked at. -/
def Taking (row : σ → κ → Option ρ) (meets : ρ → Bool) (ks taken : List κ) (s : σ) : Prop :=
  (∀ k ∈ taken, Meeting row meets s k) ∧ ∀ k, Meeting row meets s k → k ∈ taken ∨ k ∈ ks

/-- What a statement with a condition knows is kept when others cannot add to its rows. -/
theorem Taking.stable {meets : ρ → Bool} {ks taken : List κ} (hf : Frames row rely)
    (hP : Stable rely held P)
    (hgrow : ∀ s s' held', P s → (∀ k ∈ held, k ∉ held') → rely held' s s' →
      ∀ k, Meeting row meets s' k → Meeting row meets s k)
    (htaken : ∀ k ∈ taken, k ∈ held) :
    Stable rely held fun s => P s ∧ Taking row meets ks taken s := by
  rintro s s' held' ⟨hs, hin, hout⟩ hd hr
  refine ⟨hP s s' held' hs hd hr, fun k hk => ?_, fun k hk => ?_⟩
  · obtain ⟨r, hrow, hm⟩ := hin k hk
    exact ⟨r, hf held' s s' hr k (hd k (htaken k hk)) r hrow, hm⟩
  · exact hout k (hgrow s s' held' hs hd hr k hk)

/-- The rule of `UPDATE` and `DELETE`: in the end the statement holds exactly the rows that meet its
condition. -/
theorem Safe.lockEach {meets : ρ → Bool} {ks taken : List κ} {next : List κ → Txn σ κ ρ α}
    (hf : Frames row rely) (hP : Stable rely held P)
    (hgrow : ∀ s s' held', P s → (∀ k ∈ held, k ∉ held') → rely held' s s' →
      ∀ k, Meeting row meets s' k → Meeting row meets s k)
    (htaken : ∀ k ∈ taken, k ∈ held)
    (h : ∀ taken' held', (∀ k ∈ held, k ∈ held') → (∀ k ∈ taken', k ∈ held') →
      (next taken').Safe row rely own held' fun s => P s ∧ ∀ k, k ∈ taken' ↔
      Meeting row meets s k) :
    (Txn.lockEach meets ks taken next).Safe row rely own held fun s =>
      P s ∧ Taking row meets ks taken s := by
  -- Induction on the keys still to be looked at; the locks and the rows taken grow on the way.
  induction ks generalizing taken held with
  | nil =>
    refine (h taken held (fun _ hk => hk) htaken).weaken ?_
    rintro s ⟨hs, hin, hout⟩
    refine ⟨hs, fun k => ⟨hin k, fun hk => ?_⟩⟩
    simpa using hout k hk
  | cons k ks ih =>
    have hmore : ∀ j ∈ held, j ∈ k :: held := fun j hj => List.mem_cons_of_mem _ hj
    have hPmore := hP.mono hmore
    have hgrowmore : ∀ s s' held', P s → (∀ j ∈ k :: held, j ∉ held') → rely held' s s' →
        ∀ j, Meeting row meets s' j → Meeting row meets s j :=
      fun s s' held' hs hd => hgrow s s' held' hs fun j hj => hd j (hmore j hj)
    have hmoreh : ∀ taken' held', (∀ j ∈ k :: held, j ∈ held') → (∀ j ∈ taken', j ∈ held') →
        (next taken').Safe row rely own held' fun s =>
          P s ∧ ∀ j, j ∈ taken' ↔ Meeting row meets s j :=
      fun taken' held' hk => h taken' held' fun j hj => hk j (hmore j hj)
    refine Safe.lock_or (Q := fun s => P s ∧ Taking row meets ks taken s) hf
      (Taking.stable hf hP hgrow htaken) (Taking.stable hf hP hgrow htaken) ?_ (fun r => ?_) ?_
    · rintro s ⟨hs, hin, hout⟩ hr
      refine ⟨hs, hin, fun j hj => (hout j hj).imp_right fun hj' => ?_⟩
      refine (List.mem_cons.mp hj').resolve_left ?_
      rintro rfl
      obtain ⟨r, hr', _⟩ := hj
      simp [hr] at hr'
    · show (if meets r = true then Txn.lockEach meets ks (k :: taken) next
        else Txn.lockEach meets ks taken next).Safe row rely own _ _
      split
      · rename_i hm
        refine (@ih _ (k :: taken) hPmore hgrowmore ?_ hmoreh).weaken ?_
        · intro j hj
          rcases List.mem_cons.mp hj with rfl | hj
          · exact List.mem_cons_self
          · exact hmore j (htaken j hj)
        · rintro s ⟨⟨hs, hin, hout⟩, hr⟩
          refine ⟨hs, fun j hj => ?_, fun j hj => ?_⟩
          · rcases List.mem_cons.mp hj with rfl | hj
            · exact ⟨r, hr, hm⟩
            · exact hin j hj
          · have := hout j hj
            simp only [List.mem_cons] at this ⊢
            tauto
      · rename_i hm
        refine (ih hPmore hgrowmore (fun j hj => hmore j (htaken j hj)) hmoreh).weaken ?_
        rintro s ⟨⟨hs, hin, hout⟩, hr⟩
        refine ⟨hs, hin, fun j hj => (hout j hj).imp_right fun hj' => ?_⟩
        refine (List.mem_cons.mp hj').resolve_left ?_
        rintro rfl
        obtain ⟨r', hr', hm'⟩ := hj
        rw [hr] at hr'
        exact hm (Option.some.inj hr' ▸ hm')
    · exact ih hP hgrow htaken h

/-- The rule of a statement with a condition, from its snapshot on. What it knows in the end is
kept, since others can neither change the rows it holds nor add to them. -/
theorem Safe.matching {meets : ρ → Bool} {scan : σ → List κ} {next : List κ → Txn σ κ ρ α}
    (hf : Frames row rely) (hP : Stable rely held P)
    (hscan : ∀ s k, k ∈ scan s ↔ Meeting row meets s k)
    (hgrow : ∀ s s' held', P s → (∀ k ∈ held, k ∉ held') → rely held' s s' →
      ∀ k, Meeting row meets s' k → Meeting row meets s k)
    (h : ∀ taken held', (∀ k ∈ held, k ∈ held') → (∀ k ∈ taken, k ∈ held') →
      Stable rely held' (fun s => P s ∧ ∀ k, k ∈ taken ↔ Meeting row meets s k) →
      (next taken).Safe row rely own held' fun s => P s ∧ ∀ k, k ∈ taken ↔ Meeting row meets s k) :
    (Txn.select fun s => Txn.lockEach meets (scan s) [] next).Safe row rely own held P := by
  have hlast : ∀ taken s, (P s ∧ ∀ k, k ∈ taken ↔ Meeting row meets s k) ↔
      P s ∧ Taking row meets [] taken s := by
    intro taken s
    simp only [Taking, List.not_mem_nil, or_false, iff_iff_implies_and_implies, forall_and]
  intro s hs
  refine ⟨fun s' => P s' ∧ Taking row meets (scan s) [] s', Taking.stable hf hP hgrow (by simp),
    ⟨hs, by simp, fun k hk => .inr ((hscan s k).mpr hk)⟩, ?_⟩
  refine Safe.lockEach hf hP hgrow (by simp) fun taken held' hmore htaken =>
    h taken held' hmore htaken ?_
  simp only [hlast]
  exact Taking.stable hf (hP.mono hmore)
    (fun s s' held'' hs hd => hgrow s s' held'' hs fun k hk => hd k (hmore k hk)) htaken

/-- A transaction run alone leaves the database as it was, or has one of the effects of its
contract. -/
theorem Safe.exec {t : Txn σ κ ρ α} (h : t.Safe row rely own held P) {s : σ} (hs : P s) :
    (t.exec row s).2 = s ∨ ∃ held', own held' (t.exec row s).1 s (t.exec row s).2 := by
  induction t generalizing held P with
  | ret a => exact .inl rfl
  | select next ih =>
    obtain ⟨Q, -, hQ, hn⟩ := h s hs
    exact ih s hn hQ
  | lock k next ih =>
    obtain ⟨Q, -, hQ, hn⟩ := h s hs
    exact ih (row s k) hn hQ
  | commit write a violated ih =>
    simp only [Txn.exec]
    cases hw : write s with
    | none => exact ih ((h s hs).2 hw) trivial
    | some s' => exact .inr ⟨held, (h s hs).1 s' hw⟩

end Rules

end Txn

/-! ## The server -/

section Server

variable {σ κ ρ ι α : Type}

/-- Where the call of a transaction is. -/
inductive Progress (σ κ ρ α : Type) : Type
  /-- Between two statements, with the locks it holds. -/
  | running (held : List κ) (rest : Txn σ κ ρ α)
  /-- Committed or rolled back. -/
  | ended (a : α)
  /-- Rolled back because its process or its connection died. -/
  | lost

/-- A call: what was asked for, and where it is. -/
structure Call (σ κ ρ ι α : Type) where
  op : ι
  progress : Progress σ κ ρ α

/-- The rows a call holds. -/
def Call.held (c : Call σ κ ρ ι α) : List κ :=
  match c.progress with
  | .running held _ => held
  | .ended _ => []
  | .lost => []

/-- A commit, by the call that made it. -/
structure Entry (ι α : Type) where
  id : ℕ
  op : ι
  result : α

/-- The transactions of a program: the rows they lock, the statements of each call, and the calls
that can be made after a history of commits. -/
structure Workload (σ κ ρ ι α : Type) where
  row : σ → κ → Option ρ
  program : ι → Txn σ κ ρ α
  admits : List (Entry ι α) → ι → Bool

/-- A database with its calls and the commits so far. -/
structure Server (σ κ ρ ι α : Type) where
  db : σ
  calls : Table ℕ (Call σ κ ρ ι α) := .empty
  history : List (Entry ι α) := []

namespace Server

/-- The moves of a run. -/
inductive Act (ι : Type) : Type
  /-- A new call. -/
  | begin (id : ℕ) (op : ι)
  /-- The next statement of a call. -/
  | next (id : ℕ)
  /-- The process or the connection of a call dies, or the server picks it as a deadlock's
  victim. -/
  | lose (id : ℕ)
deriving DecidableEq

/-- The call that an action moves. -/
def Act.call : Act ι → ℕ
  | .begin id _ => id
  | .next id => id
  | .lose id => id

/-- A call goes on. -/
def put (s : Server σ κ ρ ι α) (id : ℕ) (progress : Progress σ κ ρ α) : Server σ κ ρ ι α :=
  { s with calls := s.calls.modifyAt id fun c => { c with progress } }

variable [DecidableEq κ]

/-- A row is held by another call. -/
def isLockedByOther (s : Server σ κ ρ ι α) (id : ℕ) (k : κ) : Bool :=
  s.calls.entries.any fun e => decide (e.1 ≠ id) && decide (k ∈ e.2.held)

/-- The next statement of a call. -/
def advance (W : Workload σ κ ρ ι α) (s : Server σ κ ρ ι α) (id : ℕ) (op : ι) (held : List κ) :
    Txn σ κ ρ α → Option (Server σ κ ρ ι α)
  | .ret a => some (s.put id (.ended a))
  | .select next => some (s.put id (.running held (next s.db)))
  | .lock k next =>
    if s.isLockedByOther id k then none
    else some (s.put id (.running (Txn.acquire W.row s.db k held) (next (W.row s.db k))))
  | .commit write a violated =>
    match write s.db with
    | some db => some { s.put id (.ended a) with db, history := s.history ++ [⟨id, op, a⟩] }
    | none => some (s.put id (.running [] violated))

/-- The step of a run. -/
def step (W : Workload σ κ ρ ι α) (s : Server σ κ ρ ι α) : Act ι → Option (Server σ κ ρ ι α)
  | .begin id op =>
    if W.admits s.history op then
      (s.calls.insert id ⟨op, .running [] (W.program op)⟩).map fun calls => { s with calls }
    else none
  | .next id =>
    match s.calls.get id with
    | some ⟨op, .running held rest⟩ => s.advance W id op held rest
    | _ => none
  | .lose id =>
    match s.calls.get id with
    | some ⟨_, .running _ _⟩ => some (s.put id .lost)
    | _ => none

/-- The runs of a workload from the databases `init`. -/
def machine (W : Workload σ κ ρ ι α) (init : σ → Prop) : Machine (Server σ κ ρ ι α) (Act ι) where
  init s := ∃ db, init db ∧ s = { db }
  step := step W

/-- What a step is, by the call that moves. -/
inductive Stepped (W : Workload σ κ ρ ι α) (s : Server σ κ ρ ι α) :
    Act ι → Server σ κ ρ ι α → Prop
  | began {id : ℕ} {op : ι} {calls : Table ℕ (Call σ κ ρ ι α)}
      (hadmits : W.admits s.history op = true)
      (hc : s.calls.insert id ⟨op, .running [] (W.program op)⟩ = some calls) :
      Stepped W s (.begin id op) { s with calls }
  | lost {id : ℕ} {op : ι} {held : List κ} {rest : Txn σ κ ρ α}
      (hc : s.calls.get id = some ⟨op, .running held rest⟩) :
        Stepped W s (.lose id) (s.put id .lost)
  | ended {id : ℕ} {op : ι} {held : List κ} {a : α}
      (hc : s.calls.get id = some ⟨op, .running held (.ret a)⟩) :
      Stepped W s (.next id) (s.put id (.ended a))
  | selected {id : ℕ} {op : ι} {held : List κ} {next : σ → Txn σ κ ρ α}
      (hc : s.calls.get id = some ⟨op, .running held (.select next)⟩) :
      Stepped W s (.next id) (s.put id (.running held (next s.db)))
  | locked {id : ℕ} {op : ι} {held : List κ} {k : κ} {next : Option ρ → Txn σ κ ρ α}
      (hc : s.calls.get id = some ⟨op, .running held (.lock k next)⟩)
      (hfree : s.isLockedByOther id k = false) :
      Stepped W s (.next id)
        (s.put id (.running (Txn.acquire W.row s.db k held) (next (W.row s.db k))))
  | refused {id : ℕ} {op : ι} {held : List κ} {write : σ → Option σ} {a : α}
      {violated : Txn σ κ ρ α}
      (hc : s.calls.get id = some ⟨op, .running held (.commit write a violated)⟩)
      (hw : write s.db = none) : Stepped W s (.next id) (s.put id (.running [] violated))
  | committed {id : ℕ} {op : ι} {held : List κ} {write : σ → Option σ} {a : α}
      {violated : Txn σ κ ρ α} {db : σ}
      (hc : s.calls.get id = some ⟨op, .running held (.commit write a violated)⟩)
      (hw : write s.db = some db) :
      Stepped W s (.next id)
        { s.put id (.ended a) with db, history := s.history ++ [⟨id, op, a⟩] }

/-- Every step is one of the kinds of `Stepped`. -/
theorem step_cases {W : Workload σ κ ρ ι α} {s s' : Server σ κ ρ ι α} {a : Act ι}
    (h : step W s a = some s') : Stepped W s a s' := by
  cases a with
  | begin id op =>
    simp only [step] at h
    split at h
    · rename_i hadmits
      obtain ⟨calls, hc, rfl⟩ := Option.map_eq_some_iff.mp h
      exact .began hadmits hc
    · cases h
  | lose id =>
    simp only [step] at h
    split at h
    · rename_i hc
      obtain rfl := Option.some.inj h
      exact .lost hc
    · cases h
  | next id =>
    simp only [step] at h
    split at h
    · rename_i op held rest hc
      cases rest with
      | ret a =>
        obtain rfl := Option.some.inj h
        exact .ended hc
      | select next =>
        obtain rfl := Option.some.inj h
        exact .selected hc
      | lock k next =>
        simp only [advance] at h
        split at h
        · cases h
        · rename_i hfree
          obtain rfl := Option.some.inj h
          exact .locked hc (by simpa using hfree)
      | commit write a violated =>
        simp only [advance] at h
        split at h
        · rename_i hw
          obtain rfl := Option.some.inj h
          exact .committed hc hw
        · rename_i hw
          obtain rfl := Option.some.inj h
          exact .refused hc hw
    · cases h

end Server

/-- What the commits of a workload can do, by the rows they hold. -/
def relyOn (own : ι → List κ → α → σ → σ → Prop) (held : List κ) (s s' : σ) : Prop :=
  ∃ op a, own op held a s s'

/-- Every transaction of the workload keeps its contract. -/
structure Workload.Meets (W : Workload σ κ ρ ι α) (own : ι → List κ → α → σ → σ → Prop) : Prop where
  frames : Txn.Frames W.row (relyOn own)
  safe : ∀ op, (W.program op).Safe W.row (relyOn own) (own op) [] fun _ => True

namespace Server

variable [DecidableEq κ] {W : Workload σ κ ρ ι α} {own : ι → List κ → α → σ → σ → Prop}

/-- What holds between two statements: no row is held twice, and every call keeps its contract from
where it is. -/
structure Sound (W : Workload σ κ ρ ι α) (own : ι → List κ → α → σ → σ → Prop)
    (s : Server σ κ ρ ι α) : Prop where
  exclusive : ∀ i j c d, s.calls.get i = some c → s.calls.get j = some d → i ≠ j →
    ∀ k ∈ c.held, k ∉ d.held
  safe : ∀ i op held rest, s.calls.get i = some ⟨op, .running held rest⟩ →
    ∃ P, Txn.Stable (relyOn own) held P ∧ P s.db ∧ rest.Safe W.row (relyOn own) (own op) held P

omit [DecidableEq κ] in

/-- A call that moves on leaves the other calls. -/
@[simp]
theorem get_put (s : Server σ κ ρ ι α) (id i : ℕ) (p : Progress σ κ ρ α) :
    (s.put id p).calls.get i =
      if i = id then (s.calls.get i).map fun c => { c with progress := p } else s.calls.get i := by
  simp [put]

/-- A call that goes on without a commit keeps the others' contracts; it has to keep its own, and
may take only rows that no other call holds. -/
theorem Sound.put {s : Server σ κ ρ ι α} (h : Sound W own s) {id : ℕ} {op : ι}
    {p q : Progress σ κ ρ α} (hc : s.calls.get id = some ⟨op, p⟩)
    (hheld : ∀ k ∈ (Call.mk op q).held, k ∈ (Call.mk op p).held ∨ s.isLockedByOther id k = false)
    (hsafe : ∀ held rest, q = .running held rest →
      ∃ P, Txn.Stable (relyOn own) held P ∧ P s.db ∧ rest.Safe W.row (relyOn own) (own op) held P) :
    Sound W own (s.put id q) := by
  -- A row the call holds afterwards is held by no other call.
  have hnew : ∀ j d, s.calls.get j = some d → j ≠ id → ∀ k ∈ (Call.mk op q).held, k ∉ d.held := by
    intro j d hd hj k hk hkd
    rcases hheld k hk with hold | hfree
    · exact h.exclusive id j _ d hc hd (Ne.symm hj) k hold hkd
    · have : s.isLockedByOther id k = true := by
        simp only [isLockedByOther, List.any_eq_true]
        exact ⟨(j, d), Table.mem_entries_iff.mpr hd, by simp [hj, hkd]⟩
      simp [this] at hfree
  constructor
  · intro i j c d hi hj hij k hk hkd
    rw [get_put] at hi hj
    by_cases hi' : i = id
    · subst hi'
      rw [if_pos rfl, hc] at hi
      rw [if_neg (Ne.symm hij)] at hj
      obtain rfl := Option.some.inj hi
      exact hnew j d hj (Ne.symm hij) k hk hkd
    · rw [if_neg hi'] at hi
      by_cases hj' : j = id
      · subst hj'
        rw [if_pos rfl, hc] at hj
        obtain rfl := Option.some.inj hj
        exact hnew i c hi hij k hkd hk
      · rw [if_neg hj'] at hj
        exact h.exclusive i j c d hi hj hij k hk hkd
  · intro i op' held rest hi
    rw [get_put] at hi
    by_cases hi' : i = id
    · subst hi'
      rw [if_pos rfl, hc] at hi
      simp only [Option.map_some, Option.some.injEq, Call.mk.injEq] at hi
      obtain ⟨rfl, hq⟩ := hi
      exact hsafe held rest hq
    · rw [if_neg hi'] at hi
      exact h.safe i op' held rest hi

/-- A commit keeps the others' contracts: they hold none of its rows. -/
theorem Sound.commit {s : Server σ κ ρ ι α} (h : Sound W own s) {id : ℕ} {op : ι} {held : List κ}
    {rest : Txn σ κ ρ α} {a : α} {db : σ} {history : List (Entry ι α)}
    (hc : s.calls.get id = some ⟨op, .running held rest⟩) (hown : own op held a s.db db) :
    Sound W own { s.put id (.ended a) with db, history } := by
  have hput := h.put (q := .ended a) hc (fun k hk => absurd hk (by simp [Call.held]))
    (fun _ _ hq => by cases hq)
  refine ⟨hput.exclusive, fun i op' held' rest' hi => ?_⟩
  obtain ⟨P, hst, hP, hsafe⟩ := hput.safe i op' held' rest' hi
  refine ⟨P, hst, hst s.db db held hP (fun k hk => ?_) ⟨op, a, hown⟩, hsafe⟩
  have hne : i ≠ id := by
    rintro rfl
    rw [get_put, if_pos rfl, hc] at hi
    simp at hi
  have hi' : s.calls.get i = some ⟨op', .running held' rest'⟩ := by
    rw [get_put, if_neg hne] at hi
    exact hi
  exact h.exclusive i id _ _ hi' hc hne k hk

omit [DecidableEq κ] in

/-- A new call holds nothing and keeps its contract. -/
theorem Sound.begin {s : Server σ κ ρ ι α} (hW : W.Meets own) (h : Sound W own s) {id : ℕ} {op : ι}
    {calls : Table ℕ (Call σ κ ρ ι α)}
    (hc : s.calls.insert id ⟨op, .running [] (W.program op)⟩ = some calls) :
    Sound W own { s with calls } := by
  obtain ⟨-, hget⟩ := Table.get_of_insert hc
  constructor
  · intro i j c d hi hj hij k hk hkd
    simp only [hget] at hi hj
    by_cases hi' : i = id
    · rw [if_pos hi'] at hi
      obtain rfl := Option.some.inj hi
      simp [Call.held] at hk
    · rw [if_neg hi'] at hi
      by_cases hj' : j = id
      · rw [if_pos hj'] at hj
        obtain rfl := Option.some.inj hj
        simp [Call.held] at hkd
      · rw [if_neg hj'] at hj
        exact h.exclusive i j c d hi hj hij k hk hkd
  · intro i op' held rest hi
    simp only [hget] at hi
    by_cases hi' : i = id
    · rw [if_pos hi'] at hi
      simp only [Option.some.injEq, Call.mk.injEq, Progress.running.injEq] at hi
      obtain ⟨rfl, rfl, rfl⟩ := hi
      exact ⟨fun _ => True, Txn.Stable.true, trivial, hW.safe op⟩
    · rw [if_neg hi'] at hi
      exact h.safe i op' held rest hi

/-- A call that has ended stays as it is. -/
theorem step_ended {s s' : Server σ κ ρ ι α} {a : Act ι} (hstep : Server.step W s a = some s')
    {i : ℕ} {op : ι} {r : α} (hi : s.calls.get i = some ⟨op, .ended r⟩) :
    s'.calls.get i = some ⟨op, .ended r⟩ := by
  -- A step goes on with a running call, so with another one.
  have hput : ∀ {id : ℕ} {op' : ι} {held : List κ} {rest : Txn σ κ ρ α} (q : Progress σ κ ρ α),
      s.calls.get id = some ⟨op', .running held rest⟩ →
      (s.put id q).calls.get i = some ⟨op, .ended r⟩ := by
    intro id op' held rest q hc
    have hne : i ≠ id := by
      rintro rfl
      rw [hi] at hc
      cases hc
    rw [get_put, if_neg hne, hi]
  cases step_cases hstep with
  | @began id op' calls hadmits hc =>
    obtain ⟨hnone, hget⟩ := Table.get_of_insert hc
    have hne : i ≠ id := by
      rintro rfl
      rw [hi] at hnone
      cases hnone
    show calls.get i = _
    rw [hget, if_neg hne, hi]
  | lost hc => exact hput _ hc
  | ended hc => exact hput _ hc
  | selected hc => exact hput _ hc
  | locked hc hfree => exact hput _ hc
  | refused hc hw => exact hput _ hc
  | committed hc hw => exact hput _ hc

/-- A step adds to the history. -/
theorem step_history {s s' : Server σ κ ρ ι α} {a : Act ι} (hstep : Server.step W s a = some s') :
    s.history <+: s'.history := by
  cases step_cases hstep with
  | committed hc hw => exact List.prefix_append _ _
  | _ => exact List.prefix_rfl

/-- The calls of a run were admitted after some of its commits. -/
theorem admitted_reachable {init : σ → Prop} {s : Server σ κ ρ ι α}
    (hr : (machine W init).Reachable s) :
    ∀ i c, s.calls.get i = some c → ∃ h, h <+: s.history ∧ W.admits h c.op = true := by
  induction hr with
  | start hs =>
    obtain ⟨db, -, rfl⟩ := hs
    intro i c hi
    simp at hi
  | @next s s' _ _ _ hstep ih =>
    have hold : ∀ i c, s.calls.get i = some c → ∃ h, h <+: s'.history ∧ W.admits h c.op = true := by
      intro i c hi
      obtain ⟨h, hp, ha⟩ := ih i c hi
      exact ⟨h, hp.trans (step_history hstep), ha⟩
    have hput : ∀ {id : ℕ} {q : Progress σ κ ρ α} (i : ℕ) (c : Call σ κ ρ ι α),
        (s.put id q).calls.get i = some c → ∃ h, h <+: s'.history ∧ W.admits h c.op = true := by
      intro id q i c hi
      rw [get_put] at hi
      split at hi
      · obtain ⟨c₀, hc₀, rfl⟩ := Option.map_eq_some_iff.mp hi
        exact hold i c₀ hc₀
      · exact hold i c hi
    cases step_cases hstep with
    | @began id op calls hadmits hc =>
      intro i c hi
      replace hi : calls.get i = some c := hi
      rw [(Table.get_of_insert hc).2] at hi
      split at hi
      · obtain rfl := Option.some.inj hi
        exact ⟨_, List.prefix_rfl, hadmits⟩
      · exact hold i c hi
    | lost hc => exact hput
    | ended hc => exact hput
    | selected hc => exact hput
    | locked hc hfree => exact hput
    | refused hc hw => exact hput
    | committed hc hw => exact hput

/-- What a step does: it leaves the database and the history as they are, or commits a call, which
ends with it. -/
inductive Moved (own : ι → List κ → α → σ → σ → Prop) (s : Server σ κ ρ ι α) (a : Act ι)
    (s' : Server σ κ ρ ι α) : Prop
  | quiet (hdb : s'.db = s.db) (hhistory : s'.history = s.history)
  | committed (e : Entry ι α) (held : List κ) (write : σ → Option σ) (violated : Txn σ κ ρ α)
      (ha : a = .next e.id)
      (hcall : s.calls.get e.id = some ⟨e.op, .running held (.commit write e.result violated)⟩)
      (hown : own e.op held e.result s.db s'.db) (hhistory : s'.history = s.history ++ [e])
      (hended : s'.calls.get e.id = some ⟨e.op, .ended e.result⟩)

/-- The step lemma of the server. -/
theorem Sound.step {s s' : Server σ κ ρ ι α} {a : Act ι} (hW : W.Meets own) (h : Sound W own s)
    (hstep : Server.step W s a = some s') : Sound W own s' ∧ Moved own s a s' := by
  have hnone : ∀ (op : ι) (q : Progress σ κ ρ α), (Call.mk op q).held = [] →
      ∀ (id : ℕ) (p : Progress σ κ ρ α),
      ∀ k ∈ (Call.mk op q).held, k ∈ (Call.mk op p).held ∨ s.isLockedByOther id k = false := by
    intro op q hq id p k hk
    rw [hq] at hk
    simp at hk
  cases step_cases hstep with
  | began hadmits hc => exact ⟨h.begin hW hc, .quiet rfl rfl⟩
  | lost hc => exact ⟨h.put hc (hnone _ _ rfl _ _) (fun _ _ hq => by cases hq), .quiet rfl rfl⟩
  | ended hc => exact ⟨h.put hc (hnone _ _ rfl _ _) (fun _ _ hq => by cases hq), .quiet rfl rfl⟩
  | selected hc =>
    obtain ⟨P, hst, hP, hsafe⟩ := h.safe _ _ _ _ hc
    obtain ⟨Q, hQst, hQ, hn⟩ := hsafe s.db hP
    refine ⟨h.put hc (fun k hk => .inl hk) ?_, .quiet rfl rfl⟩
    rintro held' rest' hq
    obtain ⟨rfl, rfl⟩ := Progress.running.inj hq
    exact ⟨Q, hQst, hQ, hn⟩
  -- The new lock was free for every other call, and the program goes on from what is proved of it.
  | @locked id op held k next hc hfree =>
    obtain ⟨P, hst, hP, hsafe⟩ := h.safe _ _ _ _ hc
    obtain ⟨Q, hQst, hQ, hn⟩ := hsafe s.db hP
    refine ⟨h.put hc (fun j hj => ?_) ?_, .quiet rfl rfl⟩
    · simp only [Call.held, Txn.acquire] at hj ⊢
      split at hj
      · rcases List.mem_cons.mp hj with rfl | hj
        · exact .inr hfree
        · exact .inl hj
      · exact .inl hj
    · rintro held' rest' hq
      obtain ⟨rfl, rfl⟩ := Progress.running.inj hq
      exact ⟨Q, hQst, hQ, hn⟩
  | refused hc hw =>
    obtain ⟨P, hst, hP, hsafe⟩ := h.safe _ _ _ _ hc
    refine ⟨h.put hc (hnone _ _ rfl _ _) ?_, .quiet rfl rfl⟩
    rintro held' rest' hq
    obtain ⟨rfl, rfl⟩ := Progress.running.inj hq
    exact ⟨fun _ => True, Txn.Stable.true, trivial, (hsafe s.db hP).2 hw⟩
  -- The write is one that the program may do in the state it is in.
  | @committed id op held write r violated db hc hw =>
    obtain ⟨P, hst, hP, hsafe⟩ := h.safe _ _ _ _ hc
    have hown := (hsafe s.db hP).1 db hw
    refine ⟨h.commit hc hown, .committed ⟨id, op, r⟩ held _ _ rfl hc hown rfl ?_⟩
    show (s.put id (.ended r)).calls.get id = _
    simp [hc]

/-- Every reachable state is sound. -/
theorem sound_reachable {init : σ → Prop} (hW : W.Meets own) {s : Server σ κ ρ ι α}
    (hr : (machine W init).Reachable s) : Sound W own s := by
  refine hr.invariant ?_ ?_
  · rintro s ⟨db, -, rfl⟩
    exact ⟨fun i j c d hi => by simp at hi, fun i op held rest hi => by simp at hi⟩
  · intro s a s' _ hs hstep
    exact (hs.step hW hstep).1

/-- A run of the server, statement by statement, is a run of the effects of its transactions. -/
theorem moved {init : σ → Prop} (hW : W.Meets own) {s s' : Server σ κ ρ ι α} {a : Act ι}
    (hr : (machine W init).Reachable s) (hstep : (machine W init).step s a = some s') :
    Moved own s a s' :=
  ((sound_reachable hW hr).step hW hstep).2

/-- The call of a commit has ended with the result of the commit. -/
theorem ended_of_mem_history {init : σ → Prop} (hW : W.Meets own) {s : Server σ κ ρ ι α}
    (hr : (machine W init).Reachable s) :
    ∀ e ∈ s.history, s.calls.get e.id = some ⟨e.op, .ended e.result⟩ := by
  induction hr with
  | start hs =>
    obtain ⟨db, -, rfl⟩ := hs
    intro e he
    simp at he
  | next hr _ hstep ih =>
    intro e he
    cases moved hW hr hstep with
    | quiet hdb hhistory => exact step_ended hstep (ih e (hhistory ▸ he))
    | committed e' held write violated ha hcall hown hhistory hended =>
      rw [hhistory, List.mem_append, List.mem_singleton] at he
      rcases he with he | rfl
      · exact step_ended hstep (ih e he)
      · exact hended

/-- A step moves one call. -/
theorem step_others {s s' : Server σ κ ρ ι α} {a : Act ι}
    (hstep : Server.step W s a = some s') {i : ℕ}
    (hi : i ≠ a.call) : s'.calls.get i = s.calls.get i := by
  have hput : ∀ {id : ℕ} (q : Progress σ κ ρ α), i ≠ id →
      (s.put id q).calls.get i = s.calls.get i := by
    intro id q hne
    rw [get_put, if_neg hne]
  cases step_cases hstep with
  | @began id op calls hadmits hc =>
    exact ((Table.get_of_insert hc).2 i).trans (if_neg hi)
  | lost hc => exact hput _ hi
  | ended hc => exact hput _ hi
  | selected hc => exact hput _ hi
  | locked hc hfree => exact hput _ hi
  | refused hc hw => exact hput _ hi
  | committed hc hw => exact hput _ hi

/-- The commit `e` of a run that has come to `s`, with the states before and after it. -/
structure Commit (W : Workload σ κ ρ ι α) (init : σ → Prop) (e : Entry ι α)
    (before after s : Server σ κ ρ ι α) : Prop where
  reachable : (machine W init).Reachable before
  step : (machine W init).step before (.next e.id) = some after
  leads : (machine W init).Leads after s
  fresh : e ∉ before.history
  recorded : e ∈ after.history

/-- Every entry of the history has its commit. -/
theorem commit_of_mem_history {init : σ → Prop} (hW : W.Meets own) {s : Server σ κ ρ ι α}
    (hr : (machine W init).Reachable s) {e : Entry ι α} (he : e ∈ s.history) :
    ∃ before after, Commit W init e before after s := by
  induction hr with
  | start hs =>
    obtain ⟨db, -, rfl⟩ := hs
    simp at he
  | @next s s' a hr _ hstep ih =>
    by_cases hold : e ∈ s.history
    · obtain ⟨before, after, h⟩ := ih hold
      exact ⟨before, after, { h with leads := .tail h.leads ⟨a, hstep⟩ }⟩
    · cases moved hW hr hstep with
      | quiet hdb hhistory => exact absurd (hhistory ▸ he) hold
      | committed e' held write violated ha hcall hown hhistory hended =>
        have hmem := he
        rw [hhistory, List.mem_append, List.mem_singleton] at hmem
        obtain rfl := hmem.resolve_left hold
        exact ⟨s, s', hr, ha ▸ hstep, .refl, hold, he⟩

/-- At its commit a call was running, and the commit is its effect. -/
theorem Commit.change {init : σ → Prop} (hW : W.Meets own) {e : Entry ι α}
    {before after s : Server σ κ ρ ι α} (h : Commit W init e before after s) :
    ∃ held, (∃ rest, before.calls.get e.id = some ⟨e.op, .running held rest⟩) ∧
      own e.op held e.result before.db after.db := by
  cases moved hW h.reachable h.step with
  | quiet hdb hhistory => exact absurd (hhistory ▸ h.recorded) h.fresh
  | committed e' held write violated ha hcall hown hhistory hended =>
    have hmem := h.recorded
    rw [hhistory, List.mem_append, List.mem_singleton] at hmem
    obtain rfl := hmem.resolve_left h.fresh
    exact ⟨held, ⟨_, hcall⟩, hown⟩

/-- The other calls stay where they are. -/
theorem Commit.others {init : σ → Prop} {e : Entry ι α} {before after s : Server σ κ ρ ι α}
    (h : Commit W init e before after s) {i : ℕ} (hi : i ≠ e.id) :
    after.calls.get i = before.calls.get i := by
  have hstep : Server.step W before (.next e.id) = some after := h.step
  exact step_others hstep hi

/-! ## How calls end -/

end Server

/-- Every end without a commit has a result in `Q`. -/
def Txn.Ends (Q : α → Prop) : Txn σ κ ρ α → Prop
  | .ret a => Q a
  | .select next => ∀ s, (next s).Ends Q
  | .lock _ next => ∀ r, (next r).Ends Q
  | .commit _ _ violated => violated.Ends Q

/-- The rows of an `UPDATE` or `DELETE` are locked without an end. -/
theorem Txn.Ends.lockEach {Q : α → Prop} {meets : ρ → Bool} {ks taken : List κ}
    {next : List κ → Txn σ κ ρ α} (h : ∀ taken, (next taken).Ends Q) :
    (Txn.lockEach meets ks taken next).Ends Q := by
  induction ks generalizing taken with
  | nil => exact h taken
  | cons k ks ih =>
    intro r
    cases r with
    | none => exact ih
    | some r =>
      dsimp only
      split_ifs
      · exact ih
      · exact ih

/-- Every commit changes the database by `Q`. -/
def Txn.Writes (Q : σ → σ → Prop) : Txn σ κ ρ α → Prop
  | .ret _ => True
  | .select next => ∀ s, (next s).Writes Q
  | .lock _ next => ∀ r, (next r).Writes Q
  | .commit write _ violated => (∀ s s', write s = some s' → Q s s') ∧ violated.Writes Q

/-- Run alone, it changes the database by `Q` or not at all. -/
theorem Txn.Writes.exec {Q : σ → σ → Prop} {row : σ → κ → Option ρ} {t : Txn σ κ ρ α}
    (h : t.Writes Q) (s : σ) : (t.exec row s).2 = s ∨ Q s (t.exec row s).2 := by
  induction t with
  | ret a => exact .inl rfl
  | select next ih => exact ih s (h s)
  | lock k next ih => exact ih (row s k) (h (row s k))
  | commit write a violated ih =>
    simp only [Txn.exec]
    cases hw : write s with
    | none => exact ih h.2
    | some s' => exact .inr (h.1 s s' hw)

/-- The rows of an `UPDATE` or `DELETE` are locked without writes. -/
theorem Txn.Writes.lockEach {Q : σ → σ → Prop} {meets : ρ → Bool} {ks taken : List κ}
    {next : List κ → Txn σ κ ρ α} (h : ∀ taken, (next taken).Writes Q) :
    (Txn.lockEach meets ks taken next).Writes Q := by
  induction ks generalizing taken with
  | nil => exact h taken
  | cons k ks ih =>
    intro r
    cases r with
    | none => exact ih
    | some r =>
      dsimp only
      split_ifs
      · exact ih
      · exact ih

/-- A commit that is refused ends the transaction, with a result in `Q`. -/
def Txn.Rejects (Q : α → Prop) : Txn σ κ ρ α → Prop
  | .ret _ => True
  | .select next => ∀ s, (next s).Rejects Q
  | .lock _ next => ∀ r, (next r).Rejects Q
  | .commit _ _ violated => ∃ a, violated = .ret a ∧ Q a

/-- The rows of an `UPDATE` or `DELETE` are locked without a commit. -/
theorem Txn.Rejects.lockEach {Q : α → Prop} {meets : ρ → Bool} {ks taken : List κ}
    {next : List κ → Txn σ κ ρ α} (h : ∀ taken, (next taken).Rejects Q) :
    (Txn.lockEach meets ks taken next).Rejects Q := by
  induction ks generalizing taken with
  | nil => exact h taken
  | cons k ks ih =>
    intro r
    cases r with
    | none => exact ih
    | some r =>
      dsimp only
      split_ifs
      · exact ih
      · exact ih

/-- In the states of `P`, where its commits are refused, the transaction ends with a result in
`Q`. -/
def Txn.Answers (row : σ → κ → Option ρ) (P : σ → Prop) (Q : α → Prop) : Txn σ κ ρ α → Prop
  | .ret a => Q a
  | .select next => ∀ s, P s → (next s).Answers row P Q
  | .lock k next => ∀ s, P s → (next (row s k)).Answers row P Q
  | .commit write _ violated => (∀ s, P s → write s = none) ∧ violated.Answers row P Q

/-- Run alone in such a state, it does end so, and leaves the state as it is. -/
theorem Txn.Answers.exec {row : σ → κ → Option ρ} {P : σ → Prop} {Q : α → Prop} {t : Txn σ κ ρ α}
    (h : t.Answers row P Q) {s : σ} (hs : P s) :
    Q (t.exec row s).1 ∧ (t.exec row s).2 = s := by
  induction t with
  | ret a => exact ⟨h, rfl⟩
  | select next ih => exact ih s (h s hs)
  | lock k next ih => exact ih (row s k) (h s hs)
  | commit write a violated ih =>
    simp only [Txn.exec, h.1 s hs]
    exact ih h.2

/-- What is answered with one of some results is answered with one of more. -/
theorem Txn.Answers.weaken {row : σ → κ → Option ρ} {P : σ → Prop} {Q Q' : α → Prop}
    {t : Txn σ κ ρ α} (h : t.Answers row P Q) (hQ : ∀ a, Q a → Q' a) : t.Answers row P Q' := by
  induction t with
  | ret a => exact hQ a h
  | select next ih => exact fun s hs => ih s (h s hs)
  | lock k next ih => exact fun s hs => ih (row s k) (h s hs)
  | commit write a violated ih => exact ⟨h.1, ih h.2⟩

/-- Whatever it reads, the transaction ends with a result in `Q`, or comes to a commit that is
refused in the states of `P`. -/
def Txn.Barred (P : σ → Prop) (Q : α → Prop) : Txn σ κ ρ α → Prop
  | .ret a => Q a
  | .select next => ∀ s, (next s).Barred P Q
  | .lock _ next => ∀ r, (next r).Barred P Q
  | .commit write _ violated => (∀ s, P s → write s = none) ∧ violated.Barred P Q

/-- A transaction barred from committing answers as its bar allows. -/
theorem Txn.Barred.answers {row : σ → κ → Option ρ} {P P' : σ → Prop} {Q : α → Prop}
    {t : Txn σ κ ρ α} (h : t.Barred P Q) (hP : ∀ s, P' s → P s) : t.Answers row P' Q := by
  induction t with
  | ret a => exact h
  | select next ih => exact fun s _ => ih s (h s)
  | lock k next ih => exact fun s _ => ih (row s k) (h (row s k))
  | commit write a violated ih => exact ⟨fun s hs => h.1 s (hP s hs), ih h.2⟩

namespace Server

variable [DecidableEq κ] {W : Workload σ κ ρ ι α}

/-- What is true of the program of every call, and of what is left of it after a statement, is true
of what is left of every call. -/
theorem rest_reachable {init : σ → Prop} {T : ι → Txn σ κ ρ α → Prop}
    (hprogram : ∀ op, T op (W.program op))
    (hselect : ∀ op next s, T op (.select next) → T op (next s))
    (hlock : ∀ op k next r, T op (.lock k next) → T op (next r))
    (hviolated : ∀ op write a violated, T op (.commit write a violated) → T op violated)
    {s : Server σ κ ρ ι α} (hr : (machine W init).Reachable s) :
    ∀ id op held rest, s.calls.get id = some ⟨op, .running held rest⟩ → T op rest := by
  induction hr with
  | start hs =>
    obtain ⟨db, -, rfl⟩ := hs
    intro id op held rest hc
    simp at hc
  | @next s s' a hr _ hstep ih =>
    -- A call goes on with what is left of it.
    have hput : ∀ {i : ℕ} {q : Progress σ κ ρ α}, (∀ op p, s.calls.get i = some ⟨op, p⟩ →
        ∀ held rest, q = .running held rest → T op rest) →
        ∀ id op held rest, (s.put i q).calls.get id =
        some ⟨op, .running held rest⟩ → T op rest := by
      intro i q hq id op held rest hc
      rw [get_put] at hc
      split at hc
      · rename_i hid
        subst hid
        obtain ⟨⟨op', p⟩, hp, hc⟩ := Option.map_eq_some_iff.mp hc
        obtain ⟨rfl, hrun⟩ := Call.mk.inj hc
        exact hq _ p hp held rest hrun
      · exact ih id op held rest hc
    have hmove : ∀ {i : ℕ} {op₀ : ι} {held₀ held₁ : List κ} {rest₀ rest₁ : Txn σ κ ρ α},
        s.calls.get i = some ⟨op₀, .running held₀ rest₀⟩ → T op₀ rest₁ →
        ∀ id op held rest, (s.put i (.running held₁ rest₁)).calls.get id =
          some ⟨op, .running held rest⟩ → T op rest := by
      intro i op₀ held₀ held₁ rest₀ rest₁ hc hT
      refine hput fun op p hp held rest hrun => ?_
      obtain ⟨rfl, -⟩ := Call.mk.inj (Option.some.inj (hc.symm.trans hp))
      obtain ⟨-, rfl⟩ := Progress.running.inj hrun
      exact hT
    have hend : ∀ {i : ℕ} {q : Progress σ κ ρ α}, (∀ held rest, q ≠ .running held rest) →
        ∀ id op held rest, (s.put i q).calls.get id = some ⟨op, .running held rest⟩ → T op rest :=
      fun hq => hput fun op p _ held rest hrun => absurd hrun (hq held rest)
    cases step_cases hstep with
    | @began id op calls hadmits hc =>
      intro i op' held rest hi
      replace hi : calls.get i = some ⟨op', .running held rest⟩ := hi
      rw [(Table.get_of_insert hc).2] at hi
      split at hi
      · obtain ⟨rfl, hrun⟩ := Call.mk.inj (Option.some.inj hi)
        obtain ⟨-, rfl⟩ := Progress.running.inj hrun
        exact hprogram _
      · exact ih i op' held rest hi
    | lost hc => exact hend fun _ _ => by simp
    | ended hc => exact hend fun _ _ => by simp
    | selected hc => exact hmove hc (hselect _ _ _ (ih _ _ _ _ hc))
    | locked hc hfree => exact hmove hc (hlock _ _ _ _ (ih _ _ _ _ hc))
    | refused hc hw => exact hmove hc (hviolated _ _ _ _ (ih _ _ _ _ hc))
    | committed hc hw => exact hend fun _ _ => by simp

/-- A call that ends otherwise than its program can end without a commit has committed. -/
theorem committed_of_ended {init : σ → Prop} {Q : α → Prop}
    (hends : ∀ op, (W.program op).Ends Q) {s : Server σ κ ρ ι α}
    (hr : (machine W init).Reachable s) {id : ℕ} {op : ι} {a : α}
    (hc : s.calls.get id = some ⟨op, .ended a⟩) (hQ : ¬ Q a) : ⟨id, op, a⟩ ∈ s.history := by
  induction hr generalizing id op a with
  | start hs =>
    obtain ⟨db, -, rfl⟩ := hs
    simp at hc
  | @next s s' act hr _ hstep ih =>
    have hrest := @rest_reachable _ _ _ _ _ _ W init (fun _ t => t.Ends Q) hends
      (fun _ next s h => h s) (fun _ k next r h => h r) (fun _ _ _ _ h => h) s hr
    -- What was in the history stays there.
    have hold : s.calls.get id = some ⟨op, .ended a⟩ → ⟨id, op, a⟩ ∈ s'.history := fun h =>
      (step_history hstep).subset (ih h hQ)
    -- A step that ends no call with this answer leaves nothing to prove.
    have hput : ∀ {i : ℕ} {q : Progress σ κ ρ α}, q ≠ .ended a →
        (s.put i q).calls.get id = some ⟨op, .ended a⟩ → ⟨id, op, a⟩ ∈ s'.history := by
      intro i q hq hc
      rw [get_put] at hc
      split at hc
      · obtain ⟨c, -, hc⟩ := Option.map_eq_some_iff.mp hc
        exact absurd (Call.mk.inj hc).2 hq
      · exact hold hc
    cases step_cases hstep with
    | @began i op' calls hadmits hi =>
      replace hc : calls.get id = some ⟨op, .ended a⟩ := hc
      rw [(Table.get_of_insert hi).2] at hc
      split at hc
      · exact absurd (Call.mk.inj (Option.some.inj hc)).2 (by simp)
      · exact hold hc
    | lost hi => exact hput (by simp) hc
    | selected hi => exact hput (by simp) hc
    | locked hi hfree => exact hput (by simp) hc
    | refused hi hw => exact hput (by simp) hc
    -- An end without a commit has an answer that `Q` holds of.
    | @ended i op' held b hi =>
      refine hput (fun hb => hQ ?_) hc
      obtain rfl := Progress.ended.inj hb
      exact hrest i op' held _ hi
    -- A commit writes its own answer to the history.
    | @committed i op' held write b violated db hi hw =>
      replace hc : (s.put i (.ended b)).calls.get id = some ⟨op, .ended a⟩ := hc
      rw [get_put] at hc
      split at hc
      · rename_i hid
        subst hid
        rw [hi] at hc
        obtain ⟨rfl, hb⟩ := Call.mk.inj (Option.some.inj hc)
        obtain rfl := Progress.ended.inj hb
        show _ ∈ s.history ++ [_]
        exact List.mem_append_right _ List.mem_cons_self
      · exact hold hc

/-- What a call knows of its statements, its locks and the database, it knows wherever it is: it
holds at its begin and is kept by its statements, and the commits of others keep it, which hold none
of its rows. -/
theorem known_reachable {init : σ → Prop} {own : ι → List κ → α → σ → σ → Prop} (hW : W.Meets own)
    {K : ι → List κ → Txn σ κ ρ α → σ → Prop}
    (hprogram : ∀ op s, K op [] (W.program op) s)
    (hselect : ∀ op held next s, K op held (.select next) s → K op held (next s) s)
    (hlock : ∀ op held k next s, K op held (.lock k next) s →
      K op (Txn.acquire W.row s k held) (next (W.row s k)) s)
    (hrefused : ∀ op held write a violated s, K op held (.commit write a violated) s →
      write s = none → K op [] violated s)
    (hothers : ∀ op held rest s s' held', K op held rest s → (∀ k ∈ held, k ∉ held') →
      relyOn own held' s s' → K op held rest s')
    {s : Server σ κ ρ ι α} (hr : (machine W init).Reachable s) :
    ∀ id op held rest, s.calls.get id = some ⟨op, .running held rest⟩ → K op held rest s.db := by
  induction hr with
  | start hs =>
    obtain ⟨db, -, rfl⟩ := hs
    intro id op held rest hc
    simp at hc
  | @next s s' a hr _ hstep ih =>
    -- A call goes on with what is left of it.
    have hmove : ∀ {i : ℕ} {op₀ : ι} {p₀ q : Progress σ κ ρ α}, s.calls.get i = some ⟨op₀, p₀⟩ →
        (∀ held rest, q = .running held rest → K op₀ held rest s.db) →
        ∀ id op held rest, (s.put i q).calls.get id = some ⟨op, .running held rest⟩ →
          K op held rest s.db := by
      intro i op₀ p₀ q hi hq id op held rest hc
      rw [get_put] at hc
      split at hc
      · rename_i hid
        subst hid
        rw [hi] at hc
        obtain ⟨rfl, rfl⟩ := Call.mk.inj (Option.some.inj hc)
        exact hq held rest rfl
      · exact ih id op held rest hc
    have hrun : ∀ {op : ι} {held₁ held : List κ} {rest₁ rest : Txn σ κ ρ α},
        K op held₁ rest₁ s.db → Progress.running held₁ rest₁ = .running held rest →
        K op held rest s.db := by
      intro op held₁ held rest₁ rest hK heq
      obtain ⟨rfl, rfl⟩ := Progress.running.inj heq
      exact hK
    cases step_cases hstep with
    | @began id op calls hadmits hc =>
      intro i op' held rest hi
      replace hi : calls.get i = some ⟨op', .running held rest⟩ := hi
      rw [(Table.get_of_insert hc).2] at hi
      split at hi
      · obtain ⟨rfl, heq⟩ := Call.mk.inj (Option.some.inj hi)
        exact hrun (hprogram _ _) heq
      · exact ih i op' held rest hi
    | lost hc => exact hmove hc fun _ _ h => by simp at h
    | ended hc => exact hmove hc fun _ _ h => by simp at h
    | selected hc => exact hmove hc fun _ _ => hrun (hselect _ _ _ _ (ih _ _ _ _ hc))
    | locked hc hfree => exact hmove hc fun _ _ => hrun (hlock _ _ _ _ _ (ih _ _ _ _ hc))
    | refused hc hw => exact hmove hc fun _ _ => hrun (hrefused _ _ _ _ _ _ (ih _ _ _ _ hc) hw)
    | @committed i op₀ held₀ write a violated db hi hw =>
      intro id op held rest hc
      have hsound := sound_reachable hW hr
      obtain ⟨Q, -, hQ, hsafe⟩ := hsound.safe _ _ _ _ hi
      replace hc : (s.put i (.ended a)).calls.get id = some ⟨op, .running held rest⟩ := hc
      rw [get_put] at hc
      split at hc
      · rename_i hid
        subst hid
        rw [hi] at hc
        exact absurd (Call.mk.inj (Option.some.inj hc)).2 (by simp)
      · rename_i hid
        exact hothers op held rest s.db db held₀ (ih id op held rest hc)
          (fun k hk => hsound.exclusive id i _ _ hc hi hid k hk)
          ⟨op₀, a, (hsafe s.db hQ).1 db hw⟩

/-- A call of which what is left, or the program if it is still to begin, answers in a state of `P`
with one of `Q`, where every step keeps `P`: it does not commit, and can only end so. -/
theorem answers {init : σ → Prop} {own : ι → List κ → α → σ → σ → Prop} (hW : W.Meets own)
    {P : σ → Prop} (hP : ∀ op held a s s', P s → own op held a s s' → P s') {Q : α → Prop}
    {s s' : Server σ κ ρ ι α} (hr : (machine W init).Reachable s) (hs : P s.db) {id : ℕ} {o : ι}
    (hprogram : (W.program o).Answers W.row P Q)
    (hcall : ∀ p, s.calls.get id = some ⟨o, p⟩ →
      ∃ held rest, p = .running held rest ∧ rest.Answers W.row P Q)
    (hl : (machine W init).Leads s s') {p : Progress σ κ ρ α}
    (hc : s'.calls.get id = some ⟨o, p⟩) :
    P s'.db ∧ (∀ a, p = .ended a → Q a) ∧
      (∀ held rest, p = .running held rest → rest.Answers W.row P Q) ∧
      ∀ e ∈ s'.history, e.id ≠ id := by
  -- The invariant of the run: the call is not there, or what is left of it answers with one of `Q`.
  have hinv : P s'.db ∧ (∀ op p, op = o → s'.calls.get id = some ⟨op, p⟩ →
      (∀ a, p = .ended a → Q a) ∧
      ∀ held rest, p = .running held rest → rest.Answers W.row P Q) ∧
      (∀ e ∈ s'.history, e.id = id → e.op ≠ o) := by
    refine Machine.Leads.stable (P := fun t => P t.db ∧ (∀ op p, op = o →
      t.calls.get id = some ⟨op, p⟩ → (∀ a, p = .ended a → Q a) ∧
      ∀ held rest, p = .running held rest → rest.Answers W.row P Q) ∧
      (∀ e ∈ t.history, e.id = id → e.op ≠ o)) ?_ hr ⟨hs, ?_, ?_⟩ hl
    · rintro t a t' ht ⟨hPt, hcalls, hhist⟩ hstep
      have hput : ∀ {i : ℕ} {op₀ : ι} {p₀ q : Progress σ κ ρ α},
          t.calls.get i = some ⟨op₀, p₀⟩ → (i = id → op₀ = o → (∀ a, q = .ended a → Q a) ∧
            ∀ held rest, q = .running held rest → rest.Answers W.row P Q) →
          ∀ op p, op = o → (t.put i q).calls.get id = some ⟨op, p⟩ →
            (∀ a, p = .ended a → Q a) ∧
            ∀ held rest, p = .running held rest → rest.Answers W.row P Q := by
        intro i op₀ p₀ q hi hq op p hop hc
        rw [get_put] at hc
        split at hc
        · rename_i hid
          subst hid
          rw [hi] at hc
          obtain ⟨rfl, rfl⟩ := Call.mk.inj (Option.some.inj hc)
          exact hq rfl hop
        · exact hcalls op p hop hc
      have hgoes : ∀ {i : ℕ} {op₀ : ι} {p₀ : Progress σ κ ρ α} {held₁ : List κ}
          {rest₁ : Txn σ κ ρ α}, t.calls.get i = some ⟨op₀, p₀⟩ →
          (i = id → op₀ = o → rest₁.Answers W.row P Q) →
          ∀ op p, op = o → (t.put i (.running held₁ rest₁)).calls.get id = some ⟨op, p⟩ →
            (∀ a, p = .ended a → Q a) ∧
            ∀ held rest, p = .running held rest → rest.Answers W.row P Q := by
        intro i op₀ p₀ held₁ rest₁ hi hrest
        refine hput hi fun hid hop => ⟨fun a ha => by simp at ha, fun held rest heq => ?_⟩
        obtain ⟨-, rfl⟩ := Progress.running.inj heq
        exact hrest hid hop
      cases step_cases hstep with
      | @began i op₀ calls hadmits hi =>
        refine ⟨hPt, fun op p hop hc => ?_, hhist⟩
        replace hc : calls.get id = some ⟨op, p⟩ := hc
        rw [(Table.get_of_insert hi).2] at hc
        split at hc
        · obtain ⟨rfl, rfl⟩ := Call.mk.inj (Option.some.inj hc)
          refine ⟨fun a ha => by simp at ha, fun held rest hrun => ?_⟩
          obtain ⟨-, rfl⟩ := Progress.running.inj hrun
          exact hop ▸ hprogram
        · exact hcalls op p hop hc
      | lost hi =>
        exact ⟨hPt, hput hi fun _ _ =>
          ⟨fun a ha => by simp at ha, fun _ _ h => by simp at h⟩, hhist⟩
      | @ended i op₀ held a hi =>
        refine ⟨hPt, hput hi fun hid hop => ⟨fun b hb => ?_, fun _ _ h => by simp at h⟩, hhist⟩
        subst hid
        obtain rfl := Progress.ended.inj hb
        exact (hcalls _ _ hop hi).2 held _ rfl
      | @selected i op₀ held next hi =>
        refine ⟨hPt, hgoes hi fun hid hop => ?_, hhist⟩
        subst hid
        exact (hcalls _ _ hop hi).2 held _ rfl t.db hPt
      | @locked i op₀ held k next hi hfree =>
        refine ⟨hPt, hgoes hi fun hid hop => ?_, hhist⟩
        subst hid
        exact (hcalls _ _ hop hi).2 held _ rfl t.db hPt
      | @refused i op₀ held write a violated hi hw =>
        refine ⟨hPt, hgoes hi fun hid hop => ?_, hhist⟩
        subst hid
        exact ((hcalls _ _ hop hi).2 held _ rfl).2
      | @committed i op₀ held write a violated db hi hw =>
        have hchange : own op₀ held a t.db db := by
          obtain ⟨R, hst, hR, hsafe⟩ := (sound_reachable hW ht).safe _ _ _ _ hi
          exact (hsafe t.db hR).1 db hw
        -- The commit of the call itself would have been refused.
        have hother : i = id → op₀ ≠ o := by
          rintro rfl hop
          have hrefused := ((hcalls _ _ hop hi).2 held _ rfl).1 t.db hPt
          rw [hrefused] at hw
          cases hw
        refine ⟨hP _ _ _ _ _ hPt hchange, hput hi fun hid hop => absurd hop (hother hid), ?_⟩
        intro e he hid
        rcases List.mem_append.mp he with he | he
        · exact hhist e he hid
        · obtain rfl := List.mem_singleton.mp he
          exact hother hid
    · rintro op p rfl hc
      obtain ⟨held, rest, rfl, hanswers⟩ := hcall p hc
      refine ⟨fun a ha => by simp at ha, fun held' rest' heq => ?_⟩
      obtain ⟨-, rfl⟩ := Progress.running.inj heq
      exact hanswers
    · rintro e he rfl rfl
      obtain ⟨held, rest, hrunning, -⟩ := hcall _ (ended_of_mem_history hW hr e he)
      simp at hrunning
  obtain ⟨hPs, hcalls, hhist⟩ := hinv
  refine ⟨hPs, (hcalls o p rfl hc).1, (hcalls o p rfl hc).2, fun e he hid => ?_⟩
  have hended := ended_of_mem_history hW (hr.leads hl) e he
  rw [hid, hc] at hended
  exact hhist e he hid (Call.mk.inj (Option.some.inj hended)).1.symm

end Server

end Server

end ExAgent.Lib
