import Mathlib.Order.Bounds.Basic
import ExAgent.Worker.Dispatcher

/-!
# The routed prefix of the inbox

The inbox of an execution is routed in sequence order: with `last_sequence = L`, the events `1..L`
are present, each once, and are `ROUTED` or `IGNORED`; later ones are `RECEIVED`; and exactly the
`ROUTED` ones have a command and an outbox row. `Routed db last` is that invariant over an arbitrary
last sequence for each execution, so that it can be carried through the loop of `Store.advance`,
where the sequence reached runs ahead of the binding row (`EventRouted.routed`, `routeLoop_routed`).

Every transaction of the store is described once, by what it does to the tables the invariant reads:
`SameRouting` for those that do not route, `Ingested` for `Store.ingest`, `AdvanceDone` for
`Store.advance`. A running `advance` works on a copy of the inbox that may be out of date when it
writes; `SeenIn` says that rows are never lost, which is all the loop needs of it.
-/

namespace ExAgent.Worker

open Lib

/-- The last sequence routed of an execution; `0` when it is not bound. -/
def Db.lastOf (db : Db) (executionId : Uuid) : ℕ :=
  ((db.bindings.get executionId).map Binding.lastSequence).getD 0

/-- The columns of a command that are written once, at its insertion. -/
def CommandRow.origin (c : CommandRow) : Uuid × Uuid × ℕ := (c.eventId, c.executionId, c.sequence)

/-- The routing invariant, for given last sequences. -/
structure Routed (db : Db) (last : Uuid → ℕ) : Prop where
  /-- A row repeats the identity of the event it stores. -/
  identity : ∀ e r, db.inbox.get e = some r →
    r.event.eventId = e ∧ r.event.executionId = r.executionId ∧ r.event.eventSequence = r.sequence
  /-- A sequence of an execution belongs to one event. -/
  unique : ∀ e e' r r', db.inbox.get e = some r → db.inbox.get e' = some r' →
    r.executionId = r'.executionId → r.sequence = r'.sequence → e = e'
  /-- The events up to the last sequence are there. -/
  full : ∀ x n, 1 ≤ n → n ≤ last x →
    ∃ e r, db.inbox.get e = some r ∧ r.executionId = x ∧ r.sequence = n
  /-- An event is still `RECEIVED` exactly when it lies after the last sequence. -/
  received_iff : ∀ e r, db.inbox.get e = some r →
    (r.state = .received ↔ last r.executionId < r.sequence)
  /-- A command comes from a `ROUTED` event and repeats its execution and sequence. -/
  command_event : ∀ c row, db.commands.get c = some row →
    ∃ r, db.inbox.get row.eventId = some r ∧ r.state = .routed ∧
      r.executionId = row.executionId ∧ r.sequence = row.sequence
  /-- A `ROUTED` event has a command. -/
  event_command : ∀ e r, db.inbox.get e = some r → r.state = .routed →
    ∃ c row, db.commands.get c = some row ∧ row.eventId = e
  /-- An event has at most one command. -/
  command_unique : ∀ c c' row row', db.commands.get c = some row → db.commands.get c' = some row' →
    row.eventId = row'.eventId → c = c'
  /-- Commands and outbox rows correspond. -/
  outbox_iff : ∀ c, (db.outbox.get c).isSome ↔ (db.commands.get c).isSome

/-! ## Transactions that do not route -/

/-- A bound execution stays bound to its session and Task. -/
def Db.KeepsSessions (db db' : Db) : Prop :=
  ∀ x b, db.bindings.get x = some b →
    ∃ b', db'.bindings.get x = some b' ∧ b'.sessionId = b.sessionId ∧ b'.taskId = b.taskId

/-- Nothing written keeps the sessions. -/
theorem Db.KeepsSessions.refl (db : Db) : db.KeepsSessions db :=
  fun _ b h => ⟨b, h, rfl, rfl⟩

/-- A bound execution stays bound. -/
theorem Db.KeepsSessions.bound {db db' : Db} (h : db.KeepsSessions db') {x : Uuid}
    (hx : (db.bindings.get x).isSome) : (db'.bindings.get x).isSome := by
  obtain ⟨b, hb⟩ := Option.isSome_iff_exists.mp hx
  obtain ⟨b', hb', -⟩ := h x b hb
  rw [hb']
  rfl

/-- The second database routes like the first: what the invariant reads is the same. -/
structure SameRouting (db db' : Db) : Prop where
  inbox : db'.inbox = db.inbox
  last : ∀ x, db'.lastOf x = db.lastOf x
  sessions : db.KeepsSessions db'
  commands : ∀ c, (db'.commands.get c).map CommandRow.origin =
    (db.commands.get c).map CommandRow.origin
  outbox : ∀ c, (db'.outbox.get c).isSome = (db.outbox.get c).isSome

/-- Nothing written routes alike. -/
theorem SameRouting.refl (db : Db) : SameRouting db db :=
  ⟨rfl, fun _ => rfl, .refl db, fun _ => rfl, fun _ => rfl⟩

/-- A command of one database is one of the other, from the same event. -/
theorem SameRouting.command {db db' : Db} (h : SameRouting db db') {c : Uuid} {row' : CommandRow}
    (hc : db'.commands.get c = some row') :
    ∃ row, db.commands.get c = some row ∧ row'.origin = row.origin := by
  have hm := h.commands c
  rw [hc, Option.map_some] at hm
  obtain ⟨row, hrow, horigin⟩ := Option.map_eq_some_iff.mp hm.symm
  exact ⟨row, hrow, horigin.symm⟩

/-- The relation is symmetric in what it says of commands. -/
theorem SameRouting.command_back {db db' : Db} (h : SameRouting db db') {c : Uuid}
    {row : CommandRow} (hc : db.commands.get c = some row) :
    ∃ row', db'.commands.get c = some row' ∧ row'.origin = row.origin := by
  have hm := h.commands c
  rw [hc, Option.map_some] at hm
  exact Option.map_eq_some_iff.mp hm

/-- The invariant passes to a database that routes alike. -/
theorem Routed.of_same {db db' : Db} {last : Uuid → ℕ} (hr : Routed db last)
    (h : SameRouting db db') : Routed db' last where
  identity := by rw [h.inbox]; exact hr.identity
  unique := by rw [h.inbox]; exact hr.unique
  full := by rw [h.inbox]; exact hr.full
  received_iff := by rw [h.inbox]; exact hr.received_iff
  command_event := by
    intro c row' hc
    obtain ⟨row, hrow, horigin⟩ := h.command hc
    simp only [CommandRow.origin, Prod.mk.injEq] at horigin
    obtain ⟨he, hx, hn⟩ := horigin
    rw [h.inbox, he, hx, hn]
    exact hr.command_event c row hrow
  event_command := by
    intro e r he hst
    rw [h.inbox] at he
    obtain ⟨c, row, hc, hev⟩ := hr.event_command e r he hst
    obtain ⟨row', hc', horigin⟩ := h.command_back hc
    simp only [CommandRow.origin, Prod.mk.injEq] at horigin
    exact ⟨c, row', hc', horigin.1.trans hev⟩
  command_unique := by
    intro c c' row row' hc hc' heq
    obtain ⟨row₁, hc₁, h₁⟩ := h.command hc
    obtain ⟨row₂, hc₂, h₂⟩ := h.command hc'
    simp only [CommandRow.origin, Prod.mk.injEq] at h₁ h₂
    exact hr.command_unique c c' row₁ row₂ hc₁ hc₂ (by rw [← h₁.1, ← h₂.1, heq])
  outbox_iff := by
    intro c
    have hcmd : (db'.commands.get c).isSome = (db.commands.get c).isSome := by
      have := congrArg Option.isSome (h.commands c)
      simpa using this
    rw [h.outbox, hcmd]
    exact hr.outbox_iff c

/-- A command is written and rewritten only outside its origin. -/
theorem setState_same (db : Db) (c : Uuid) (w : StateWrite) :
    SameRouting db (setState db c w.state w.error w.failedAttempt) where
  inbox := rfl
  last := fun _ => rfl
  sessions := .refl db
  commands := by
    intro k
    simp only [setState, Table.get_modifyAt]
    split
    · rw [Option.map_map]
      rfl
    · rfl
  outbox := by
    intro k
    simp only [setState]
    split
    · rw [Table.get_modifyAt]
      split <;> simp
    · rfl

/-- `resolve_failed` keeps the origins of the commands and the keys of the outbox. -/
theorem resolveFailed_same {db db' : Db} {c : Uuid} {retry : Bool} {actor reason : String}
    (h : resolveFailed db c retry actor reason = .ok db') : SameRouting db db' := by
  unfold resolveFailed at h
  split at h
  · cases h
  · split at h
    · cases h
    · split at h
      · cases h
        refine ⟨rfl, fun _ => rfl, .refl db, fun k => ?_, fun k => ?_⟩
        · rw [Table.get_modifyAt]
          split
          · rw [Option.map_map]
            rfl
          · rfl
        · dsimp only
          split
          · rw [Table.get_modifyAt]
            split <;> simp
          · rfl
      · cases h

/-- `claim_outbox` rewrites outbox rows only. -/
theorem claimOutbox_same (db : Db) (now : Time) (locked : List Uuid) (limit lease : ℕ)
    (token : Uuid) : SameRouting db (claimOutbox db now locked limit lease token).1 :=
  ⟨rfl, fun _ => rfl, .refl db, fun _ => rfl, fun k => by simp [claimOutbox]⟩

/-- `finish_publications` rewrites outbox rows only. -/
theorem finishPublications_same (db : Db) (token : Uuid) (ids : List Uuid) (sent : Bool) :
    SameRouting db (finishPublications db token ids sent) :=
  ⟨rfl, fun _ => rfl, .refl db, fun _ => rfl, fun k => by simp [finishPublications]⟩

/-- An update of a binding that keeps its session and Task keeps the sessions. -/
theorem keepsSessions_modifyAt (db : Db) (x : Uuid) (f : Binding → Binding)
    (hf : ∀ b, (f b).sessionId = b.sessionId ∧ (f b).taskId = b.taskId) :
    db.KeepsSessions { db with bindings := db.bindings.modifyAt x f } := by
  intro y b hb
  simp only [Table.get_modifyAt, hb]
  by_cases hy : y = x
  · exact ⟨f b, by simp [hy], hf b⟩
  · exact ⟨b, by simp [hy], rfl, rfl⟩

/-- An update of a binding outside its session, Task and last sequence routes alike. -/
theorem modifyBinding_same (db : Db) (x : Uuid) (f : Binding → Binding)
    (hf : ∀ b, (f b).lastSequence = b.lastSequence)
    (hs : ∀ b, (f b).sessionId = b.sessionId ∧ (f b).taskId = b.taskId) :
    SameRouting db { db with bindings := db.bindings.modifyAt x f } := by
  refine ⟨rfl, fun y => ?_, keepsSessions_modifyAt db x f hs, fun _ => rfl, fun _ => rfl⟩
  · simp only [Db.lastOf, Table.get_modifyAt]
    split
    · rw [Option.map_map]
      congr 2
      funext b
      exact hf b
    · rfl

/-- `register` adds a binding at sequence `0`, or nothing. -/
theorem register_same {db db' : Db} {now : Time} {x : Uuid} {sessionId taskId actor : String}
    (h : register db now x sessionId taskId actor = .ok db') : SameRouting db db' := by
  set b₀ : Binding := ⟨sessionId, taskId, 0, now, none, 0, 0⟩ with hb₀
  have hdb : db' = { db with bindings := db.bindings.insertIfAbsent x b₀ } := by
    unfold register at h
    split at h
    · cases h
    · dsimp only at h
      split at h
      · split at h
        · cases h; rfl
        · cases h
      · cases h
  subst hdb
  refine ⟨rfl, fun y => ?_, fun y b hb => ?_, fun _ => rfl, fun _ => rfl⟩
  · simp only [Db.lastOf, Table.get_insertIfAbsent]
    by_cases hy : y = x
    · subst hy
      cases db.bindings.get y <;> simp [hb₀]
    · simp [hy]
  · simp only [Table.get_insertIfAbsent]
    by_cases hy : y = x
    · subst hy
      exact ⟨b, by simp [hb], rfl, rfl⟩
    · exact ⟨b, by simp [hy, hb], rfl, rfl⟩

/-! ## One event -/

/-- The command row of a routed event. -/
def newCommand (x : Uuid) (event : ExecutorEvent) : CommandRow :=
  ⟨event.eventId, x, event.eventSequence, .ready, 0, 0, none⟩

/-- The outbox row of a routed event. -/
def newOutbox (now : Time) : OutboxRow := ⟨0, .pending, none, none, now⟩

/-- What the writes of one event do. The event's inbox row gets its state; a handled event gets a
command and an outbox row at keys that were free; nothing else changes. -/
structure EventRouted (commandIdOf : Uuid → Uuid) (now : Time) (x : Uuid) (event : ExecutorEvent)
    (state : InboxState) (db db' : Db) : Prop where
  bindings : db'.bindings = db.bindings
  inbox : ∀ e, db'.inbox.get e = if e = event.eventId
    then (db.inbox.get e).map (fun r => { r with state := state }) else db.inbox.get e
  ignored : state ≠ .routed → db'.commands = db.commands ∧ db'.outbox = db.outbox
  free : state = .routed → db.commands.get (commandIdOf event.eventId) = none ∧
    ∀ c row, db.commands.get c = some row → row.eventId ≠ event.eventId
  commands : state = .routed → ∀ c, db'.commands.get c =
    if c = commandIdOf event.eventId then some (newCommand x event) else db.commands.get c
  outbox : state = .routed → ∀ c, db'.outbox.get c =
    if c = commandIdOf event.eventId then some (newOutbox now) else db.outbox.get c

/-- `routeEvent`, when it does not raise: the event becomes `ROUTED` or `IGNORED`. -/
theorem routeEvent_spec {commandIdOf : Uuid → Uuid} {now : Time} {x : Uuid} {types : List String}
    {db db' : Db} {event : ExecutorEvent}
    (h : routeEvent commandIdOf now x types db event = .ok db') :
    EventRouted commandIdOf now x event (if event.eventType ∈ types then .routed else .ignored)
      db db' := by
  unfold routeEvent at h
  by_cases ht : event.eventType ∈ types
  · rw [if_pos ht] at h ⊢
    dsimp only at h
    split at h
    · cases h
    · rename_i hnew
      split at h
      · cases h
      · rename_i commands hcommands
        split at h
        · cases h
        · rename_i outbox houtbox
          cases h
          have hfree := Table.get_of_insert hcommands
          refine ⟨rfl, fun e => Table.get_modifyAt .., fun hne => absurd rfl hne,
            fun _ => ⟨hfree.1, fun c row hc heq => hnew ?_⟩, fun _ => hfree.2,
            fun _ => (Table.get_of_insert houtbox).2⟩
          rw [List.any_eq_true]
          exact ⟨(c, row), Table.mem_entries_iff.mpr hc, by simpa using heq⟩
  · rw [if_neg ht] at h ⊢
    cases h
    exact ⟨rfl, fun e => Table.get_modifyAt .., fun _ => ⟨rfl, rfl⟩, nofun, nofun, nofun⟩

/-- Routing an event keeps the identity of every inbox row. -/
theorem EventRouted.inbox_get {commandIdOf : Uuid → Uuid} {now : Time} {x : Uuid}
    {event : ExecutorEvent} {state : InboxState} {db db' : Db}
    (h : EventRouted commandIdOf now x event state db db') {e : Uuid} {r' : InboxRow}
    (he : db'.inbox.get e = some r') :
    ∃ r, db.inbox.get e = some r ∧ r'.event = r.event ∧ r'.executionId = r.executionId ∧
      r'.sequence = r.sequence ∧ r'.state = if e = event.eventId then state else r.state := by
  rw [h.inbox] at he
  by_cases hk : e = event.eventId
  · rw [if_pos hk] at he
    obtain ⟨r, hr, rfl⟩ := Option.map_eq_some_iff.mp he
    exact ⟨r, hr, rfl, rfl, rfl, by simp [hk]⟩
  · rw [if_neg hk] at he
    exact ⟨r', he, rfl, rfl, rfl, by simp [hk]⟩

/-- Routing an event loses no inbox row. -/
theorem EventRouted.inbox_mono {commandIdOf : Uuid → Uuid} {now : Time} {x : Uuid}
    {event : ExecutorEvent} {state : InboxState} {db db' : Db}
    (h : EventRouted commandIdOf now x event state db db') {e : Uuid} {r : InboxRow}
    (he : db.inbox.get e = some r) :
    ∃ r', db'.inbox.get e = some r' ∧ r'.event = r.event ∧ r'.executionId = r.executionId ∧
      r'.sequence = r.sequence ∧ r'.state = if e = event.eventId then state else r.state := by
  by_cases hk : e = event.eventId
  · exact ⟨{ r with state := state }, by rw [h.inbox, if_pos hk, he]; rfl, rfl, rfl, rfl,
      by simp [hk]⟩
  · exact ⟨r, by rw [h.inbox, if_neg hk, he], rfl, rfl, rfl, by simp [hk]⟩

/-- Routing the next event of an execution keeps the invariant, one sequence further. -/
theorem EventRouted.routed {commandIdOf : Uuid → Uuid} {now : Time} {x : Uuid}
    {event : ExecutorEvent} {state : InboxState} {db db' : Db} {last : Uuid → ℕ} {row : InboxRow}
    (h : EventRouted commandIdOf now x event state db db') (hr : Routed db last)
    (hstate : state ≠ .received) (hrow : db.inbox.get event.eventId = some row)
    (hx : row.executionId = x) (hnext : row.sequence = last x + 1)
    (hevent : event.eventSequence = row.sequence) :
    Routed db' (Function.update last x (last x + 1)) where
  identity := by
    intro e r' he
    obtain ⟨r, hr', hev, hxe, hseq, -⟩ := h.inbox_get he
    rw [hev, hxe, hseq]
    exact hr.identity e r hr'
  unique := by
    intro e₁ e₂ r₁ r₂ h₁ h₂ hxe hseq
    obtain ⟨s₁, hs₁, -, hx₁, hn₁, -⟩ := h.inbox_get h₁
    obtain ⟨s₂, hs₂, -, hx₂, hn₂, -⟩ := h.inbox_get h₂
    exact hr.unique e₁ e₂ s₁ s₂ hs₁ hs₂ (by rw [← hx₁, ← hx₂, hxe]) (by rw [← hn₁, ← hn₂, hseq])
  full := by
    intro y n hn hle
    have hold : ∃ e r, db.inbox.get e = some r ∧ r.executionId = y ∧ r.sequence = n := by
      by_cases hy : y = x
      · subst hy
        rw [Function.update_self] at hle
        -- The new sequence is the event's own; the others were there before.
        rcases Nat.lt_or_ge (last y) n with hlt | hge
        · exact ⟨event.eventId, row, hrow, hx, by omega⟩
        · exact hr.full y n hn hge
      · rw [Function.update_of_ne hy] at hle
        exact hr.full y n hn hle
    obtain ⟨e, r, he, hxe, hne⟩ := hold
    obtain ⟨r', he', -, hx', hn', -⟩ := h.inbox_mono he
    exact ⟨e, r', he', hx'.trans hxe, hn'.trans hne⟩
  received_iff := by
    intro e r' he
    obtain ⟨r, her, -, hxe, hseq, hst⟩ := h.inbox_get he
    have hold := hr.received_iff e r her
    rw [hst, hxe, hseq]
    by_cases hk : e = event.eventId
    · -- The event itself is no longer `RECEIVED`, and its sequence is the last one.
      obtain rfl : r = row := by
        rw [hk, hrow] at her
        exact (Option.some.inj her).symm
      rw [if_pos hk, hx, Function.update_self, hnext]
      simp [hstate]
    · rw [if_neg hk, hold]
      by_cases hy : r.executionId = x
      · have hne : r.sequence ≠ last x + 1 := by
          intro heq
          exact hk (hr.unique e event.eventId r row her hrow (hy.trans hx.symm)
            (heq.trans hnext.symm))
        rw [hy, Function.update_self]
        omega
      · rw [Function.update_of_ne hy]
  command_event := by
    intro c cmd hc
    by_cases hs : state = .routed
    · rw [h.commands hs] at hc
      split at hc
      · obtain rfl := Option.some.inj hc
        obtain ⟨r', he', -, hx', hn', hst'⟩ := h.inbox_mono hrow
        exact ⟨r', he', by rw [hst', if_pos rfl, hs], hx'.trans hx, hn'.trans hevent.symm⟩
      · obtain ⟨r, her, hst, hxe, hseq⟩ := hr.command_event c cmd hc
        obtain ⟨r', he', -, hx', hn', hst'⟩ := h.inbox_mono her
        refine ⟨r', he', ?_, hx'.trans hxe, hn'.trans hseq⟩
        rw [hst', hs, hst, ite_self]
    · rw [(h.ignored hs).1] at hc
      obtain ⟨r, her, hst, hxe, hseq⟩ := hr.command_event c cmd hc
      obtain ⟨r', he', -, hx', hn', hst'⟩ := h.inbox_mono her
      have hne : cmd.eventId ≠ event.eventId := by
        intro heq
        rw [heq, hrow] at her
        obtain rfl := Option.some.inj her
        have := (hr.received_iff _ _ hrow).mpr (by rw [hx, hnext]; omega)
        rw [this] at hst
        cases hst
      exact ⟨r', he', by rw [hst', if_neg hne, hst], hx'.trans hxe, hn'.trans hseq⟩
  event_command := by
    intro e r' he hst'
    obtain ⟨r, her, -, -, -, hst⟩ := h.inbox_get he
    rw [hst] at hst'
    by_cases hk : e = event.eventId
    · rw [if_pos hk] at hst'
      exact ⟨commandIdOf event.eventId, newCommand x event, by rw [h.commands hst', if_pos rfl],
        hk.symm⟩
    · rw [if_neg hk] at hst'
      obtain ⟨c, cmd, hc, hev⟩ := hr.event_command e r her hst'
      refine ⟨c, cmd, ?_, hev⟩
      by_cases hs : state = .routed
      · rw [h.commands hs, if_neg, hc]
        rintro rfl
        rw [(h.free hs).1] at hc
        cases hc
      · rw [(h.ignored hs).1, hc]
  command_unique := by
    intro c₁ c₂ cmd₁ cmd₂ h₁ h₂ heq
    by_cases hs : state = .routed
    · rw [h.commands hs] at h₁ h₂
      split at h₁ <;> split at h₂
      · rename_i hc₁ hc₂
        rw [hc₁, hc₂]
      · obtain rfl := Option.some.inj h₁
        exact absurd heq.symm ((h.free hs).2 c₂ cmd₂ h₂)
      · obtain rfl := Option.some.inj h₂
        exact absurd heq ((h.free hs).2 c₁ cmd₁ h₁)
      · exact hr.command_unique c₁ c₂ cmd₁ cmd₂ h₁ h₂ heq
    · rw [(h.ignored hs).1] at h₁ h₂
      exact hr.command_unique c₁ c₂ cmd₁ cmd₂ h₁ h₂ heq
  outbox_iff := by
    intro c
    by_cases hs : state = .routed
    · rw [h.commands hs, h.outbox hs]
      split
      · simp
      · exact hr.outbox_iff c
    · rw [(h.ignored hs).1, (h.ignored hs).2]
      exact hr.outbox_iff c

/-! ## The loop of `advance` -/

/-- The events are stored, as events of the execution. -/
def Stored (inbox : Table Uuid InboxRow) (x : Uuid) (events : List ExecutorEvent) : Prop :=
  ∀ event ∈ events, ∃ r, inbox.get event.eventId = some r ∧ r.event = event ∧ r.executionId = x

/-- What routing adds to a database: inbox rows keep their identity, old commands and outbox rows
stay as they are, and a new command is `READY` in generation `0`, belongs to the execution, lies
after `last`, and has a `PENDING` outbox row. -/
structure Advanced (x : Uuid) (last : ℕ) (db db' : Db) : Prop where
  inbox : ∀ e r, db.inbox.get e = some r → ∃ r', db'.inbox.get e = some r' ∧ r'.event = r.event ∧
    r'.executionId = r.executionId ∧ r'.sequence = r.sequence
  commands : ∀ c row, db.commands.get c = some row → db'.commands.get c = some row
  outbox : ∀ c o, db.outbox.get c = some o → db'.outbox.get c = some o
  fresh : ∀ c row, db'.commands.get c = some row → db.commands.get c = none →
    row.state = .ready ∧ row.generation = 0 ∧ row.executionId = x ∧ last < row.sequence ∧
      ∃ now, db'.outbox.get c = some (newOutbox now)

/-- Nothing routed. -/
theorem Advanced.refl (x : Uuid) (last : ℕ) (db : Db) : Advanced x last db db :=
  ⟨fun _ r h => ⟨r, h, rfl, rfl, rfl⟩, fun _ _ h => h, fun _ _ h => h,
    fun c row h hn => by rw [hn] at h; cases h⟩

/-- The additions of two parts of the loop are additions. -/
theorem Advanced.trans {x : Uuid} {last last' : ℕ} {db₁ db₂ db₃ : Db} (hle : last ≤ last')
    (h₁ : Advanced x last db₁ db₂) (h₂ : Advanced x last' db₂ db₃) : Advanced x last db₁ db₃ where
  inbox := by
    intro e r he
    obtain ⟨r', he', hev, hx, hn⟩ := h₁.inbox e r he
    obtain ⟨r'', he'', hev', hx', hn'⟩ := h₂.inbox e r' he'
    exact ⟨r'', he'', hev'.trans hev, hx'.trans hx, hn'.trans hn⟩
  commands := fun c row hc => h₂.commands c row (h₁.commands c row hc)
  outbox := fun c o ho => h₂.outbox c o (h₁.outbox c o ho)
  fresh := by
    intro c row hc hnone
    cases hc₂ : db₂.commands.get c with
    | none =>
      obtain ⟨hst, hg, hx, hlt, hout⟩ := h₂.fresh c row hc hc₂
      exact ⟨hst, hg, hx, by omega, hout⟩
    | some row₂ =>
      obtain rfl : row₂ = row := by
        rw [h₂.commands c row₂ hc₂] at hc
        exact Option.some.inj hc
      obtain ⟨hst, hg, hx, hlt, now, hout⟩ := h₁.fresh c row₂ hc₂ hnone
      exact ⟨hst, hg, hx, hlt, now, h₂.outbox c _ hout⟩

/-- One event adds its command. -/
theorem EventRouted.advanced {commandIdOf : Uuid → Uuid} {now : Time} {x : Uuid}
    {event : ExecutorEvent} {state : InboxState} {db db' : Db} {last : Uuid → ℕ}
    (h : EventRouted commandIdOf now x event state db db') (hr : Routed db last) :
    Advanced x (event.eventSequence - 1) db db' where
  inbox := by
    intro e r he
    obtain ⟨r', he', hev, hx, hn, -⟩ := h.inbox_mono he
    exact ⟨r', he', hev, hx, hn⟩
  commands := by
    intro c row hc
    by_cases hs : state = .routed
    · rw [h.commands hs, if_neg, hc]
      rintro rfl
      rw [(h.free hs).1] at hc
      cases hc
    · rw [(h.ignored hs).1, hc]
  outbox := by
    intro c o ho
    by_cases hs : state = .routed
    · rw [h.outbox hs, if_neg, ho]
      rintro rfl
      have hsome := (hr.outbox_iff _).mp (by rw [ho]; rfl)
      rw [(h.free hs).1] at hsome
      cases hsome
    · rw [(h.ignored hs).2, ho]
  fresh := by
    intro c row hc hnone
    by_cases hs : state = .routed
    · rw [h.commands hs] at hc
      split at hc
      · rename_i hk
        obtain rfl := Option.some.inj hc
        have hpos := event.eventSequence_pos
        refine ⟨rfl, rfl, rfl, ?_, now, by rw [h.outbox hs, if_pos hk]⟩
        change event.eventSequence - 1 < event.eventSequence
        omega
      · rw [hnone] at hc
        cases hc
    · rw [(h.ignored hs).1, hnone] at hc
      cases hc

/-- The loop keeps the invariant at the sequence it has reached. -/
theorem routeLoop_routed {commandIdOf : Uuid → Uuid} {now : Time} {x : Uuid} {types : List String}
    (last : Uuid → ℕ) {events : List ExecutorEvent} {p p' : Progress}
    (h : routeLoop commandIdOf now x types events p = .ok p')
    (hr : Routed p.db (Function.update last x p.sequence)) (hst : Stored p.db.inbox x events) :
    Routed p'.db (Function.update last x p'.sequence) ∧ p'.db.bindings = p.db.bindings ∧
      p.sequence ≤ p'.sequence ∧ Advanced x p.sequence p.db p'.db := by
  induction events generalizing p with
  | nil =>
    obtain rfl : p = p' := by simpa [routeLoop] using h
    exact ⟨hr, rfl, le_rfl, .refl ..⟩
  | cons event events ih =>
    unfold routeLoop at h
    split at h
    · -- A gap: the loop ends where it stands.
      obtain rfl := Except.ok.inj h
      exact ⟨hr, rfl, le_rfl, .refl ..⟩
    · rename_i hseq
      push Not at hseq
      split at h
      · cases h
      · rename_i db hroute
        have hspec := routeEvent_spec hroute
        obtain ⟨row, hrow, hev, hx⟩ := hst event (List.mem_cons_self ..)
        have hid := hr.identity _ _ hrow
        rw [hev] at hid
        have hstep := hspec.routed hr (by split <;> simp) hrow hx
          (by rw [Function.update_self, ← hid.2.2, hseq]) hid.2.2
        rw [Function.update_self, Function.update_idem, ← hseq] at hstep
        have hadv := hspec.advanced hr
        -- The events that are left are still stored.
        have hst' : Stored db.inbox x events := by
          intro ev hmem
          obtain ⟨r, hr', hev', hx'⟩ := hst ev (List.mem_cons_of_mem _ hmem)
          obtain ⟨r', hr'', h₁, h₂, -⟩ := hadv.inbox _ _ hr'
          exact ⟨r', hr'', h₁.trans hev', h₂.trans hx'⟩
        obtain ⟨hrouted, hbind, hle, hadv'⟩ := ih h hstep hst'
        refine ⟨hrouted, hbind.trans hspec.bindings, by simp only at hle; omega, ?_⟩
        have hp : event.eventSequence - 1 = p.sequence := by omega
        rw [hp] at hadv
        exact hadv.trans (by simp only; omega) hadv'

/-- Where the loop stops: it consumes a prefix of the events, whose sequences follow one another,
and reports a gap exactly when the event after that prefix does not follow. -/
theorem routeLoop_shape {commandIdOf : Uuid → Uuid} {now : Time} {x : Uuid} {types : List String}
    {events : List ExecutorEvent} {p p' : Progress}
    (h : routeLoop commandIdOf now x types events p = .ok p') :
    ∃ pre suf, events = pre ++ suf ∧ p'.count = p.count + pre.length ∧
      p.sequence ≤ p'.sequence ∧ (∀ e ∈ pre, e.eventSequence ≤ p'.sequence) ∧
      (∀ m, p.sequence < m → m ≤ p'.sequence → ∃ e ∈ pre, e.eventSequence = m) ∧
      ((suf = [] ∧ p'.gap = p.gap) ∨
        ∃ e es, suf = e :: es ∧ e.eventSequence ≠ p'.sequence + 1 ∧
          p'.gap = some p'.sequence) := by
  induction events generalizing p with
  | nil =>
    obtain rfl : p = p' := by simpa [routeLoop] using h
    exact ⟨[], [], rfl, by simp, le_rfl, by simp, fun m h₁ h₂ => absurd h₁ (by omega),
      .inl ⟨rfl, rfl⟩⟩
  | cons event events ih =>
    unfold routeLoop at h
    split at h
    · -- The first event does not follow, so the loop stops with a gap.
      rename_i hseq
      obtain rfl := Except.ok.inj h
      exact ⟨[], event :: events, rfl, by simp, le_rfl, by simp,
        fun m h₁ h₂ => absurd h₁ (by simp only at h₂; omega), .inr ⟨event, events, rfl, hseq, rfl⟩⟩
    · rename_i hseq
      push Not at hseq
      split at h
      · cases h
      · -- It follows, and the loop goes on behind it.
        obtain ⟨pre, suf, hevents, hcount, hsequence, hmem, hreach, hend⟩ := ih h
        simp only at hcount hsequence hreach hend
        refine ⟨event :: pre, suf, by rw [hevents]; rfl, ?_, by omega, ?_, ?_, hend⟩
        · rw [List.length_cons]
          omega
        · intro e he
          rcases List.mem_cons.mp he with rfl | he
          · omega
          · exact hmem e he
        · intro m h₁ h₂
          by_cases hm : m = event.eventSequence
          · exact ⟨event, List.mem_cons_self .., hm.symm⟩
          · obtain ⟨e, he, hem⟩ := hreach m (by omega) h₂
            exact ⟨e, List.mem_cons_of_mem _ he, hem⟩

/-! ## The rows `advance` reads -/

/-- Rows of `advanceRows` before the limit. -/
def laterRows (inbox : Table Uuid InboxRow) (x : Uuid) (sequence : ℕ) : List InboxRow :=
  ((inbox.entries.map Prod.snd).filter fun r =>
    r.executionId = x ∧ sequence < r.sequence).insertionSort fun a b => a.sequence ≤ b.sequence

/-- The rows after a sequence are the stored ones. -/
theorem mem_laterRows {inbox : Table Uuid InboxRow} {x : Uuid} {n : ℕ} {r : InboxRow} :
    r ∈ laterRows inbox x n ↔ (∃ e, inbox.get e = some r) ∧ r.executionId = x ∧ n < r.sequence := by
  unfold laterRows
  rw [List.mem_insertionSort, List.mem_filter, List.mem_map]
  simp only [decide_eq_true_eq]
  refine and_congr_left fun _ => ⟨?_, ?_⟩
  · rintro ⟨⟨e, r'⟩, hmem, rfl⟩
    exact ⟨e, Table.mem_entries_iff.mp hmem⟩
  · rintro ⟨e, he⟩
    exact ⟨(e, r), Table.mem_entries_iff.mpr he, rfl⟩

/-- Where sequences are unique, the rows after a sequence are strictly increasing. -/
theorem laterRows_strict {inbox : Table Uuid InboxRow} (x : Uuid) (n : ℕ)
    (hu : ∀ e e' r r', inbox.get e = some r → inbox.get e' = some r' →
      r.executionId = r'.executionId → r.sequence = r'.sequence → e = e') :
    (laterRows inbox x n).Pairwise fun a b => a.sequence < b.sequence := by
  -- Two entries of the execution differ in key, hence in sequence.
  have hkeys : inbox.entries.Pairwise fun a b =>
      a.2.executionId = x → b.2.executionId = x → a.2.sequence ≠ b.2.sequence := by
    have hnd := List.pairwise_map.mp inbox.nodup
    refine hnd.imp_of_mem ?_
    intro a b ha hb hne hxa hxb hseq
    exact hne (hu a.1 b.1 a.2 b.2 (Table.mem_entries_iff.mp ha) (Table.mem_entries_iff.mp hb)
      (hxa.trans hxb.symm) hseq)
  set rows := (inbox.entries.map Prod.snd).filter fun r =>
    decide (r.executionId = x ∧ n < r.sequence) with hrows
  have hdiff : rows.Pairwise fun a b => a.sequence ≠ b.sequence := by
    have hmap : (inbox.entries.map Prod.snd).Pairwise fun a b =>
        a.executionId = x → b.executionId = x → a.sequence ≠ b.sequence :=
      List.pairwise_map.mpr hkeys
    refine (hmap.filter _).imp_of_mem ?_
    intro a b ha hb h
    have hxa := (List.mem_filter.mp ha).2
    have hxb := (List.mem_filter.mp hb).2
    simp only [decide_eq_true_eq] at hxa hxb
    exact h hxa.1 hxb.1
  have hperm : (rows.insertionSort fun a b => a.sequence ≤ b.sequence).Perm rows :=
    List.perm_insertionSort _ rows
  have hdiff' := hperm.symm.pairwise hdiff (fun h => Ne.symm h)
  have htotal : Std.Total fun a b : InboxRow => a.sequence ≤ b.sequence :=
    ⟨fun a b => Nat.le_total ..⟩
  have htrans : IsTrans InboxRow fun a b => a.sequence ≤ b.sequence :=
    ⟨fun a b c => Nat.le_trans⟩
  have hsorted := List.pairwise_insertionSort (fun a b : InboxRow => a.sequence ≤ b.sequence) rows
  exact (hsorted.and hdiff').imp fun h => lt_of_le_of_ne h.1 h.2

/-- The stored sequences of an execution after a given one. -/
def storedAfter (inbox : Table Uuid InboxRow) (x : Uuid) (n : ℕ) : Set ℕ :=
  { m | n < m ∧ ∃ e r, inbox.get e = some r ∧ r.executionId = x ∧ r.sequence = m }

/-- A copy of an inbox that may be out of date: each of its rows is still there. -/
def SeenIn (seen inbox : Table Uuid InboxRow) : Prop :=
  ∀ e r, seen.get e = some r → ∃ r', inbox.get e = some r' ∧ r'.event = r.event ∧
    r'.executionId = r.executionId ∧ r'.sequence = r.sequence

/-- Sequences are unique in a copy of an inbox in which they are. -/
theorem SeenIn.unique {seen : Table Uuid InboxRow} {db : Db} {last : Uuid → ℕ}
    (h : SeenIn seen db.inbox) (hr : Routed db last) (e e' : Uuid) (r r' : InboxRow)
    (he : seen.get e = some r) (he' : seen.get e' = some r') (hx : r.executionId = r'.executionId)
    (hn : r.sequence = r'.sequence) : e = e' := by
  obtain ⟨s, hs, -, hxs, hns⟩ := h e r he
  obtain ⟨s', hs', -, hxs', hns'⟩ := h e' r' he'
  exact hr.unique e e' s s' hs hs' (by rw [hxs, hxs', hx]) (by rw [hns, hns', hn])

/-- The events a copy gives are stored. -/
theorem SeenIn.stored {seen : Table Uuid InboxRow} {db : Db} {last : Uuid → ℕ}
    (h : SeenIn seen db.inbox) (hr : Routed db last) (x : Uuid) (n limit : ℕ) :
    Stored db.inbox x ((advanceRows seen x n limit).map InboxRow.event) := by
  intro event hmem
  obtain ⟨r, hr', rfl⟩ := List.mem_map.mp hmem
  obtain ⟨⟨e, he⟩, hx, -⟩ := mem_laterRows.mp (List.mem_of_mem_take hr')
  obtain ⟨r', he', hev, hx', -⟩ := h e r he
  have hid := (hr.identity e r' he').1
  rw [hev] at hid
  exact ⟨r', by rw [hid]; exact he', hev, hx'.trans hx⟩

/-- The loop over the rows it has read reports a gap exactly when it stopped before its limit at a
stored sequence that is not the next one. -/
theorem routeLoop_gap {commandIdOf : Uuid → Uuid} {now : Time} {x : Uuid} {types : List String}
    {seen : Table Uuid InboxRow} {db : Db} {last : Uuid → ℕ} {n limit : ℕ} {p : Progress}
    (h : routeLoop commandIdOf now x types
      ((advanceRows seen x n limit).map InboxRow.event) ⟨db, n, 0, none⟩ = .ok p)
    (hseen : SeenIn seen db.inbox) (hr : Routed db last) (g : ℕ) :
    p.gap = some g ↔ g = p.sequence ∧ p.count < limit ∧
      ∃ m, IsLeast (storedAfter seen x p.sequence) m ∧ p.sequence + 1 < m := by
  have hsorted := laterRows_strict x n (hseen.unique hr)
  have hseq : ∀ r ∈ laterRows seen x n, r.event.eventSequence = r.sequence := by
    intro r hr'
    obtain ⟨⟨e, he⟩, -, -⟩ := mem_laterRows.mp hr'
    obtain ⟨r', he', hev, -, hn'⟩ := hseen e r he
    rw [← hev, (hr.identity e r' he').2.2, hn']
  obtain ⟨pre, suf, hevents, hcount, hsequence, hpre, hreach, hend⟩ := routeLoop_shape h
  simp only [Nat.zero_add] at hcount hsequence hreach
  -- The events are those of the first rows; split the rows as the loop splits the events.
  obtain ⟨rpre, rsuf, hrows, rfl, rfl⟩ := List.map_eq_append_iff.mp hevents
  rw [List.length_map] at hcount
  have hall : laterRows seen x n = rpre ++ rsuf ++ (laterRows seen x n).drop limit := by
    rw [← hrows]
    exact (List.take_append_drop limit _).symm
  have hmem_pre : ∀ r ∈ rpre, r.sequence ≤ p.sequence := by
    intro r hr'
    have hl : r ∈ laterRows seen x n := by
      rw [hall]
      exact List.mem_append_left _ (List.mem_append_left _ hr')
    rw [← hseq r hl]
    exact hpre _ (List.mem_map_of_mem hr')
  have hlater : ∀ m, m ∈ storedAfter seen x p.sequence ↔
      ∃ r ∈ rsuf ++ (laterRows seen x n).drop limit, p.sequence < r.sequence ∧ r.sequence = m := by
    intro m
    constructor
    · rintro ⟨hlt, e, r, he, hx, rfl⟩
      have hl : r ∈ laterRows seen x n := mem_laterRows.mpr ⟨⟨e, he⟩, hx, by omega⟩
      rw [hall, List.append_assoc, List.mem_append] at hl
      rcases hl with hl | hl
      · exact absurd (hmem_pre r hl) (by omega)
      · exact ⟨r, hl, hlt, rfl⟩
    · rintro ⟨r, hmem, hlt, rfl⟩
      have hl : r ∈ laterRows seen x n := by
        rw [hall, List.append_assoc]
        exact List.mem_append_right _ hmem
      obtain ⟨⟨e, he⟩, hx, -⟩ := mem_laterRows.mp hl
      exact ⟨hlt, e, r, he, hx, rfl⟩
  have hlen : rpre.length + rsuf.length ≤ limit := by
    have := congrArg List.length hrows
    rw [List.length_append] at this
    have htake : (advanceRows seen x n limit).length ≤ limit := List.length_take_le ..
    omega
  rcases hend with ⟨hsuf, hgap⟩ | ⟨e, es, hsuf, hne, hgap⟩
  · -- Everything read was consumed: either the limit was reached, or nothing is stored beyond.
    obtain rfl : rsuf = [] := List.map_eq_nil_iff.mp hsuf
    rw [hgap]
    constructor
    · intro hcontra
      cases hcontra
    · rintro ⟨-, hlt, m, hleast, -⟩
      have hlen' : (laterRows seen x n).length ≤ limit := by
        have htake := congrArg List.length hrows
        rw [List.append_nil, advanceRows, List.length_take] at htake
        change min limit (laterRows seen x n).length = rpre.length at htake
        omega
      obtain ⟨r, hmem, -, -⟩ := (hlater m).mp hleast.1
      rw [List.nil_append, List.drop_eq_nil_of_le hlen'] at hmem
      cases hmem
  · -- The next row does not follow: it is the least of the stored ones beyond.
    obtain ⟨r, rs, rfl, rfl, -⟩ := List.map_eq_cons_iff.mp hsuf
    have hl : r ∈ laterRows seen x n := by
      rw [hall]
      exact List.mem_append_left _ (List.mem_append_right _ (List.mem_cons_self ..))
    rw [hseq r hl] at hne
    have hbefore : ∀ r' ∈ rpre, r'.sequence < r.sequence := by
      rw [hall, List.append_assoc, List.pairwise_append] at hsorted
      intro r' hr'
      exact hsorted.2.2 r' hr' r (List.mem_append_left _ (List.mem_cons_self ..))
    have hafter : ∀ r' ∈ rs ++ (laterRows seen x n).drop limit, r.sequence < r'.sequence := by
      rw [hall, List.append_assoc, List.pairwise_append, List.cons_append,
        List.pairwise_cons] at hsorted
      exact hsorted.2.1.1
    -- The consumed sequences are `n+1 .. p.sequence`, so the next row lies beyond them.
    have hgt : p.sequence < r.sequence := by
      by_contra hle
      obtain ⟨e, he, hem⟩ := hreach r.sequence (mem_laterRows.mp hl).2.2 (by omega)
      obtain ⟨r', hr', rfl⟩ := List.mem_map.mp he
      have hl' : r' ∈ laterRows seen x n := by
        rw [hall]
        exact List.mem_append_left _ (List.mem_append_left _ hr')
      have := hbefore r' hr'
      rw [hseq r' hl'] at hem
      omega
    have hleast : IsLeast (storedAfter seen x p.sequence) r.sequence := by
      refine ⟨(hlater _).mpr ⟨r, by simp, hgt, rfl⟩, ?_⟩
      intro m hm
      obtain ⟨r', hmem, -, rfl⟩ := (hlater m).mp hm
      rcases List.mem_cons.mp hmem with rfl | hmem
      · exact le_rfl
      · exact (hafter r' hmem).le
    rw [hgap]
    constructor
    · intro hg
      obtain rfl := Option.some.inj hg
      simp only [List.length_cons] at hlen
      exact ⟨rfl, by omega, r.sequence, hleast, by omega⟩
    · rintro ⟨rfl, -⟩
      rfl

/-! ## Ingestion -/

/-- What `ingest` does when it does not raise: the event is stored, by this call when neither its
identity nor its sequence was taken, and nothing that routing reads changes besides. -/
structure Ingested (event : ExecutorEvent) (db db' : Db) : Prop where
  commands : db'.commands = db.commands
  outbox : db'.outbox = db.outbox
  last : ∀ x, db'.lastOf x = db.lastOf x
  sessions : db.KeepsSessions db'
  inbox : (∀ e, db'.inbox.get e = db.inbox.get e) ∨
    (db.inbox.get event.eventId = none ∧
      (∀ e r, db.inbox.get e = some r →
        ¬ (r.executionId = event.executionId ∧ r.sequence = event.eventSequence)) ∧
      ∀ e, db'.inbox.get e = if e = event.eventId
        then some ⟨event.executionId, event.eventSequence, event, .received⟩
        else db.inbox.get e)

/-- The insert of `ingest` adds the event's row or nothing. -/
theorem ingestInsert_get (db : Db) (event : ExecutorEvent) :
    (∀ e, (ingestInsert db event).get e = db.inbox.get e) ∨
    (db.inbox.get event.eventId = none ∧
      (∀ e r, db.inbox.get e = some r →
        ¬ (r.executionId = event.executionId ∧ r.sequence = event.eventSequence)) ∧
      ∀ e, (ingestInsert db event).get e = if e = event.eventId
        then some ⟨event.executionId, event.eventSequence, event, .received⟩
        else db.inbox.get e) := by
  unfold ingestInsert
  split
  · exact .inl fun _ => rfl
  · rename_i htaken
    cases hev : db.inbox.get event.eventId with
    | some row =>
      refine .inl fun e => ?_
      rw [Table.get_insertIfAbsent, hev]
      split
      · rename_i he
        rw [he, hev, Option.getD_some]
      · rfl
    | none =>
      refine .inr ⟨rfl, fun e r he hcol => htaken ?_, fun e => ?_⟩
      · rw [Db.sequenceTaken, List.any_eq_true]
        exact ⟨(e, r), Table.mem_entries_iff.mpr he, by simpa using hcol⟩
      · rw [Table.get_insertIfAbsent, hev, Option.getD_none]

/-- `ingest`, when it does not raise. -/
theorem ingest_spec {db db' : Db} {event : ExecutorEvent} {catchUp : Bool}
    (h : ingest db event catchUp = .ok db') : Ingested event db db' := by
  unfold ingest at h
  dsimp only at h
  split at h
  · cases h
  · split at h
    · cases h
      cases catchUp with
      | false =>
        exact ⟨rfl, rfl, fun _ => rfl, fun _ b hb => ⟨b, hb, rfl, rfl⟩, ingestInsert_get db event⟩
      | true =>
        have hsame := modifyBinding_same db event.executionId
          (fun b => { b with catchUpVersion := b.catchUpVersion + 1 }) (fun _ => rfl)
          fun _ => ⟨rfl, rfl⟩
        exact ⟨rfl, rfl, hsame.last, hsame.sessions, ingestInsert_get db event⟩
    · cases h

/-- Ingestion keeps the invariant: a sequence up to the last one is taken, so what is stored anew
lies after it. -/
theorem Ingested.routed {event : ExecutorEvent} {db db' : Db} {last : Uuid → ℕ}
    (h : Ingested event db db') (hr : Routed db last) : Routed db' last := by
  rcases h.inbox with hsame | ⟨hnone, hfree, hget⟩
  · -- The event was there already: the three tables are as before.
    refine ⟨?_, ?_, ?_, ?_, ?_, ?_, ?_, ?_⟩ <;> simp only [hsame, h.commands, h.outbox]
    exacts [hr.identity, hr.unique, hr.full, hr.received_iff, hr.command_event, hr.event_command,
      hr.command_unique, hr.outbox_iff]
  · -- An old row is not the new one, and is found as before.
    have hold : ∀ {e r}, db.inbox.get e = some r → db'.inbox.get e = some r := by
      intro e r he
      rw [hget, if_neg, he]
      rintro rfl
      rw [hnone] at he
      cases he
    refine ⟨?_, ?_, ?_, ?_, ?_, ?_, ?_, ?_⟩
    · -- The new row carries its own event's identity.
      intro e r he
      rw [hget] at he
      split at he
      · rename_i hk
        obtain rfl := Option.some.inj he
        exact ⟨hk.symm, rfl, rfl⟩
      · exact hr.identity e r he
    · -- No other row has its execution and sequence: ingestion has looked for one.
      intro e e' r r' he he' hx hn
      rw [hget] at he he'
      split at he <;> split at he'
      · rename_i h₁ h₂
        rw [h₁, h₂]
      · obtain rfl := Option.some.inj he
        exact absurd ⟨hx.symm, hn.symm⟩ (hfree e' r' he')
      · obtain rfl := Option.some.inj he'
        exact absurd ⟨hx, hn⟩ (hfree e r he)
      · exact hr.unique e e' r r' he he' hx hn
    · intro x n hn hle
      obtain ⟨e, r, he, hx, hseq⟩ := hr.full x n hn hle
      exact ⟨e, r, hold he, hx, hseq⟩
    · -- It is RECEIVED, so its sequence must not be behind the cursor, below which all rows are
      -- there.
      intro e r he
      rw [hget] at he
      split at he
      · obtain rfl := Option.some.inj he
        refine ⟨fun _ => ?_, fun _ => rfl⟩
        by_contra hle
        obtain ⟨e', r', he', hx, hseq⟩ := hr.full event.executionId event.eventSequence
          event.eventSequence_pos (by simp only at hle; omega)
        exact hfree e' r' he' ⟨hx, hseq⟩
      · exact hr.received_iff e r he
    · intro c row hc
      rw [h.commands] at hc
      obtain ⟨r, he, hrest⟩ := hr.command_event c row hc
      exact ⟨r, hold he, hrest⟩
    · -- A row that is just RECEIVED has no command yet.
      intro e r he hst
      rw [hget] at he
      split at he
      · obtain rfl := Option.some.inj he
        cases hst
      · rw [h.commands]
        exact hr.event_command e r he hst
    · rw [h.commands]
      exact hr.command_unique
    · rw [h.commands, h.outbox]
      exact hr.outbox_iff

/-- Ingestion loses no inbox row. -/
theorem Ingested.seenIn {event : ExecutorEvent} {db db' : Db} (h : Ingested event db db') :
    SeenIn db.inbox db'.inbox := by
  intro e r he
  refine ⟨r, ?_, rfl, rfl, rfl⟩
  rcases h.inbox with hsame | ⟨hnone, -, hget⟩
  · rw [hsame, he]
  · rw [hget, if_neg, he]
    rintro rfl
    rw [hnone] at he
    cases he

/-! ## The writes of `advance` -/

/-- What an `advance` that does not raise does, and what it returns. -/
structure AdvanceDone (x : Uuid) (limit : ℕ) (seen : Table Uuid InboxRow) (db db' : Db)
    (count : ℕ) (gap : Option ℕ) : Prop where
  routed : Routed db' db'.lastOf
  mono : db.lastOf x ≤ db'.lastOf x
  other : ∀ y, y ≠ x → db'.lastOf y = db.lastOf y
  sessions : db.KeepsSessions db'
  advanced : Advanced x (db.lastOf x) db db'
  gap_iff : ∀ g, gap = some g ↔ g = db'.lastOf x ∧ count < limit ∧
    ∃ m, IsLeast (storedAfter seen x (db'.lastOf x)) m ∧ db'.lastOf x + 1 < m

/-- `advance`, when it does not raise. -/
theorem advanceWrite_spec {commandIdOf : Uuid → Uuid} {now : Time} {x : Uuid} {types : List String}
    {limit : ℕ} {read : AdvanceRead} {db db' : Db} {count : ℕ} {gap : Option ℕ}
    (h : advanceWrite commandIdOf now x types limit read db = .ok (db', count, gap))
    (hr : Routed db db.lastOf) (hbound : (db.bindings.get x).isSome)
    (hlast : read.lastSequence = db.lastOf x) (hseen : SeenIn read.seen db.inbox) :
    AdvanceDone x limit read.seen db db' count gap := by
  unfold advanceWrite at h
  dsimp only at h
  split at h
  · cases h
  · rename_i p hloop
    obtain ⟨rfl, rfl, rfl⟩ : _ = db' ∧ p.count = count ∧ p.gap = gap := by
      simpa using Except.ok.inj h
    have hself : Function.update db.lastOf x read.lastSequence = db.lastOf := by
      rw [hlast, Function.update_eq_self]
    obtain ⟨hrouted, hbind, hle, hadv⟩ := routeLoop_routed db.lastOf hloop
      (by simp only; rw [hself]; exact hr) (hseen.stored hr x _ limit)
    simp only at hbind hle hadv
    obtain ⟨b, hb⟩ := Option.isSome_iff_exists.mp hbound
    -- The last sequences afterwards: the one reached for this execution, the old ones elsewhere.
    have hlasts : ∀ y, (Db.lastOf { p.db with bindings := p.db.bindings.modifyAt x fun b =>
        { b with lastSequence := p.sequence, nextScanAt := now, lastError := none } } y) =
        Function.update db.lastOf x p.sequence y := by
      intro y
      simp only [Db.lastOf, Table.get_modifyAt, hbind]
      by_cases hy : y = x
      · subst hy
        simp [hb]
      · simp [hy, Db.lastOf]
    refine ⟨?_, ?_, ?_, ?_, ?_, ?_⟩
    · rw [funext hlasts]
      exact ⟨hrouted.identity, hrouted.unique, hrouted.full, hrouted.received_iff,
        hrouted.command_event, hrouted.event_command, hrouted.command_unique, hrouted.outbox_iff⟩
    · rw [hlasts, Function.update_self, ← hlast]
      exact hle
    · intro y hy
      rw [hlasts, Function.update_of_ne hy]
    · intro y b' hb'
      rw [← hbind] at hb'
      refine keepsSessions_modifyAt p.db x _ ?_ y b' hb'
      exact fun _ => ⟨rfl, rfl⟩
    · rw [← hlast]
      exact ⟨hadv.inbox, hadv.commands, hadv.outbox, hadv.fresh⟩
    · rw [hlasts, Function.update_self]
      exact routeLoop_gap hloop hseen hr

end ExAgent.Worker
