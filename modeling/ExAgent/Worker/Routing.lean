import ExAgent.Worker.System
import ExAgent.Worker.Inbox

/-!
# Routing in every run of the worker

`step_routing` splits the steps of the worker into the five ways in which they can touch bindings,
inbox and the keys of commands, and from it the routing invariant holds in every reachable state
(`reachable_routing`). An open `advance` holds the row lock on its binding, so the last sequence it
has read stays current; what it has seen of the inbox is still there when it writes (`RoutingOpen`).
-/

namespace ExAgent.Worker

open Lib

/-! ## Steps of the worker, as routing sees them -/

/-- The ways a step of the worker touches bindings, inbox and the keys of commands. -/
inductive RoutingStep (cfg : Config) (s s' : State) : Prop
  /-- It does not. -/
  | same (hr : s'.routing = s.routing) (hdb : SameRouting s.db s'.db)
  /-- An event is ingested. -/
  | ingest {event : ExecutorEvent} (hr : s'.routing = s.routing) (hdb : Ingested event s.db s'.db)
  /-- An `advance` reads. -/
  | opened {x : Uuid} {types : List String} {limit : ℕ} {read : AdvanceRead}
      (hread : advanceRead s.db x = some read) (hdb : s'.db = s.db)
      (hr : s'.routing = Function.update s.routing x (some ⟨types, limit, read⟩))
  /-- An `advance` writes. -/
  | wrote {now : Time} {x : Uuid} {r : Routing} {count : ℕ} {gap : Option ℕ}
      (hopen : s.routing x = some r) (hr : s'.routing = Function.update s.routing x none)
      (hdb : advanceWrite cfg.commandIdOf now x r.eventTypes r.limit r.read s.db =
        .ok (s'.db, count, gap))
  /-- An `advance` is rolled back. -/
  | closed {x : Uuid} (hdb : s'.db = s.db) (hr : s'.routing = Function.update s.routing x none)

/-- A move of a consumer process only writes command states. -/
theorem Move.same {cfg : Config} {s s' : State} {p : ℕ} {proc : Proc} {pc : Pc}
    (h : Move cfg s p proc pc s') : s'.routing = s.routing ∧ SameRouting s.db s'.db := by
  cases h with
  | start => exact ⟨rfl, setState_same ..⟩
  | startLost => exact ⟨rfl, setState_same ..⟩
  | settle => exact ⟨rfl, setState_same ..⟩
  | settleLost => exact ⟨rfl, setState_same ..⟩
  | _ => exact ⟨rfl, .refl _⟩

/-- Every step is one of these. -/
theorem step_routing {cfg : Config} {s s' : State} {a : Action} (h : step cfg s a = some s') :
    RoutingStep cfg s s' := by
  cases a with
  | register now x sessionId taskId actor =>
    obtain rfl := Option.some.inj h
    unfold State.commit
    split
    · exact .same rfl (register_same ‹_›)
    · exact .same rfl (.refl _)
  | ingest event catchUp =>
    simp only [step] at h
    split at h
    · cases h
    · obtain rfl := Option.some.inj h
      unfold State.commit
      split
      · exact .ingest rfl (ingest_spec ‹_›)
      · exact .same rfl (.refl _)
  | finishCatchUp x version =>
    simp only [step] at h
    split at h
    · cases h
    · obtain rfl := Option.some.inj h
      exact .same rfl (modifyBinding_same _ _ _ (fun _ => rfl) fun _ => ⟨rfl, rfl⟩)
  | scanError now x error =>
    simp only [step] at h
    split at h
    · cases h
    · obtain rfl := Option.some.inj h
      exact .same rfl (modifyBinding_same _ _ _ (fun _ => rfl) fun _ => ⟨rfl, rfl⟩)
  | advanceBegin x types limit =>
    simp only [step] at h
    split at h
    · cases h
    · -- A window is opened over the events that are routed next.
      split at h
      · obtain rfl := Option.some.inj h
        exact .same rfl (.refl _)
      · obtain rfl := Option.some.inj h
        exact .opened ‹_› rfl rfl
  | advanceCommit now x =>
    simp only [step] at h
    split at h
    · cases h
    · -- Its batch is refused and rolled back, or written as `advanceWrite_spec` says.
      split at h
      · obtain rfl := Option.some.inj h
        exact .closed rfl rfl
      · obtain rfl := Option.some.inj h
        exact .wrote ‹_› rfl ‹_›
  | advanceAbort x =>
    obtain rfl := Option.some.inj h
    exact .closed rfl rfl
  | claimOutbox now locked limit lease token =>
    simp only [step] at h
    split at h
    · cases h
    · obtain rfl := Option.some.inj h
      exact .same rfl (claimOutbox_same ..)
  | xadd token row added reply =>
    simp only [step] at h
    split at h
    · cases h
    · split at h
      · cases h
      · split at h
        · cases h
        · obtain rfl := Option.some.inj h
          exact .same rfl (.refl _)
  | finishPublications token sent =>
    simp only [step] at h
    split at h
    · cases h
    · split at h
      · cases h
      · obtain rfl := Option.some.inj h
        exact .same rfl (finishPublications_same ..)
  | publisherDies token =>
    obtain rfl := Option.some.inj h
    exact .same rfl (.refl _)
  | deliver p i handlers maxAttempts =>
    simp only [step] at h
    split at h
    · obtain rfl := Option.some.inj h
      exact .same rfl (.refl _)
    · cases h
  | work p choice =>
    simp only [step] at h
    split at h
    · cases h
    · obtain ⟨hr, hdb⟩ := (State.work_move h).same
      exact .same hr hdb
  | processDies p =>
    simp only [step] at h
    split at h
    · cases h
    · obtain rfl := Option.some.inj h
      unfold State.die
      split <;> exact .same rfl (.refl _)
  | resolveFailed c retry actor reason =>
    -- Both ways to a resolution end in the same commit.
    have hcommit : ∀ {t : State}, t = s.commit (resolveFailed s.db c retry actor reason) →
        RoutingStep cfg s t := by
      rintro t rfl
      unfold State.commit
      split
      · exact .same rfl (resolveFailed_same ‹_›)
      · exact .same rfl (.refl _)
    simp only [step] at h
    split at h
    · exact hcommit (Option.some.inj h).symm
    · split at h
      · cases h
      · exact hcommit (Option.some.inj h).symm

/-- What holds of an open `advance`: its execution is bound, the lock keeps the last sequence it
has read current, and what it has seen of the inbox is still there. -/
structure RoutingOpen (db : Db) (x : Uuid) (r : Routing) : Prop where
  bound : (db.bindings.get x).isSome
  current : r.read.lastSequence = db.lastOf x
  seen : SeenIn r.read.seen db.inbox

/-- The routing invariant of the worker. -/
structure RoutingInv (s : State) : Prop where
  routed : Routed s.db s.db.lastOf
  opened : ∀ x r, s.routing x = some r → RoutingOpen s.db x r

/-- The worker starts with empty tables. -/
theorem routingInv_initial : RoutingInv State.initial := by
  refine ⟨⟨?_, ?_, ?_, ?_, ?_, ?_, ?_, ?_⟩, ?_⟩
  · intro e r he
    cases he
  · intro e e' r r' he
    cases he
  · intro x n h₁ h₂
    change n ≤ 0 at h₂
    omega
  · intro e r he
    cases he
  · intro c row hc
    cases hc
  · intro e r he
    cases he
  · intro c c' row row' hc
    cases hc
  · intro c
    exact Iff.rfl
  · intro x r hr
    cases hr

/-- What is seen in an inbox is seen in a later one. -/
theorem SeenIn.trans {a b c : Table Uuid InboxRow} (h₁ : SeenIn a b) (h₂ : SeenIn b c) :
    SeenIn a c := by
  intro e r he
  obtain ⟨r', he', hev, hx, hn⟩ := h₁ e r he
  obtain ⟨r'', he'', hev', hx', hn'⟩ := h₂ e r' he'
  exact ⟨r'', he'', hev'.trans hev, hx'.trans hx, hn'.trans hn⟩

/-- An inbox is seen in itself. -/
theorem SeenIn.refl (inbox : Table Uuid InboxRow) : SeenIn inbox inbox :=
  fun _ r he => ⟨r, he, rfl, rfl, rfl⟩

/-- Every step keeps the routing invariant. -/
theorem RoutingInv.step {cfg : Config} {s s' : State} {a : Action} (hi : RoutingInv s)
    (h : step cfg s a = some s') : RoutingInv s' := by
  cases step_routing h with
  | same hr hdb =>
    refine ⟨?_, fun x r hx => ?_⟩
    · rw [funext hdb.last]
      exact hi.routed.of_same hdb
    · rw [hr] at hx
      obtain ⟨hb, hc, hs⟩ := hi.opened x r hx
      exact ⟨hdb.sessions.bound hb, by rw [hdb.last, hc], by rw [hdb.inbox]; exact hs⟩
  | ingest hr hdb =>
    refine ⟨?_, fun x r hx => ?_⟩
    · rw [funext hdb.last]
      exact hdb.routed hi.routed
    · rw [hr] at hx
      -- An open `advance` keeps its binding and the inbox only grows.
      obtain ⟨hb, hc, hs⟩ := hi.opened x r hx
      exact ⟨hdb.sessions.bound hb, by rw [hdb.last, hc], hs.trans hdb.seenIn⟩
  | opened hread hdb hr =>
    -- A new `advance` has read what the tables hold now.
    rename_i x types limit read
    rw [advanceRead, Option.map_eq_some_iff] at hread
    obtain ⟨b, hb, rfl⟩ := hread
    refine ⟨hdb ▸ hi.routed, fun y r hy => ?_⟩
    rw [hr] at hy
    rw [hdb]
    by_cases hyx : y = x
    · subst hyx
      rw [Function.update_self] at hy
      obtain rfl := Option.some.inj hy
      exact ⟨by rw [hb]; rfl, by simp [Db.lastOf, hb], .refl _⟩
    · rw [Function.update_of_ne hyx] at hy
      exact hi.opened y r hy
  | wrote hopen hr hdb =>
    -- The write of an `advance`: its own execution is closed, the other ones stay open.
    rename_i now x r count gap
    obtain ⟨hb, hc, hs⟩ := hi.opened x r hopen
    have hdone := advanceWrite_spec hdb hi.routed hb hc hs
    refine ⟨hdone.routed, fun y r' hy => ?_⟩
    rw [hr] at hy
    by_cases hyx : y = x
    · subst hyx
      rw [Function.update_self] at hy
      cases hy
    · -- Another execution's `advance` keeps its binding, and sees a larger inbox.
      rw [Function.update_of_ne hyx] at hy
      obtain ⟨hb', hc', hs'⟩ := hi.opened y r' hy
      exact ⟨hdone.sessions.bound hb', by rw [hdone.other y hyx, hc'],
        hs'.trans hdone.advanced.inbox⟩
  | closed hdb hr =>
    rename_i x
    refine ⟨hdb ▸ hi.routed, fun y r hy => ?_⟩
    rw [hr] at hy
    rw [hdb]
    by_cases hyx : y = x
    · subst hyx
      rw [Function.update_self] at hy
      cases hy
    · rw [Function.update_of_ne hyx] at hy
      exact hi.opened y r hy

/-- The routing invariant holds in every reachable state. -/
theorem reachable_routing {cfg : Config} {s : State} (h : (worker cfg).Reachable s) :
    RoutingInv s := by
  refine h.invariant (fun s hs => ?_) (fun s a s' _ hi hs => hi.step hs)
  obtain rfl : s = .initial := hs
  exact routingInv_initial

/-- No step lowers a last sequence. -/
theorem lastOf_mono {cfg : Config} {s s' : State} {a : Action} (hi : RoutingInv s)
    (h : step cfg s a = some s') (x : Uuid) : s.db.lastOf x ≤ s'.db.lastOf x := by
  cases step_routing h with
  | same hr hdb => rw [hdb.last]
  | ingest hr hdb => rw [hdb.last]
  | opened hread hdb hr => rw [hdb]
  | wrote hopen hr hdb =>
    rename_i now y r count gap
    obtain ⟨hb, hc, hs⟩ := hi.opened y r hopen
    have hdone := advanceWrite_spec hdb hi.routed hb hc hs
    by_cases hyx : x = y
    · subst hyx
      exact hdone.mono
    · rw [hdone.other x hyx]
  | closed hdb hr => rw [hdb]

/-! ## The result -/

/-- What routing guarantees of a database. -/
structure RoutingSpec (db : Db) : Prop where
  /-- Each sequence up to the last one has exactly one event. -/
  one_event : ∀ x b n, db.bindings.get x = some b → 1 ≤ n → n ≤ b.lastSequence →
    ∃! e, ∃ r, db.inbox.get e = some r ∧ r.executionId = x ∧ r.sequence = n
  /-- Up to the last sequence an event is `ROUTED` or `IGNORED`, after it `RECEIVED`. -/
  state : ∀ e r b, db.inbox.get e = some r → db.bindings.get r.executionId = some b →
    (r.sequence ≤ b.lastSequence → r.state = .routed ∨ r.state = .ignored) ∧
      (b.lastSequence < r.sequence → r.state = .received)
  /-- A `ROUTED` event has exactly one command, which has its execution and sequence and exactly
  one outbox row. -/
  routed : ∀ e r, db.inbox.get e = some r → r.state = .routed →
    (∃! c, ∃ row, db.commands.get c = some row ∧ row.eventId = e) ∧
      ∀ c row, db.commands.get c = some row → row.eventId = e →
        row.executionId = r.executionId ∧ row.sequence = r.sequence ∧
          ∃! o, (c, o) ∈ db.outbox.entries
  /-- Other events have no command. -/
  unrouted : ∀ e r, db.inbox.get e = some r → r.state ≠ .routed →
    ∀ c row, db.commands.get c = some row → row.eventId ≠ e
  /-- An outbox row belongs to a command of a `ROUTED` event. -/
  outbox : ∀ c o, db.outbox.get c = some o → ∃ row r, db.commands.get c = some row ∧
    db.inbox.get row.eventId = some r ∧ r.state = .routed

/-- The invariant gives the guarantee. -/
theorem Routed.spec {db : Db} (hr : Routed db db.lastOf) : RoutingSpec db where
  one_event := by
    intro x b n hb hn hle
    obtain ⟨e, r, he, hx, hseq⟩ := hr.full x n hn (by simpa [Db.lastOf, hb] using hle)
    refine ⟨e, ⟨r, he, hx, hseq⟩, ?_⟩
    rintro e' ⟨r', he', hx', hseq'⟩
    exact hr.unique e' e r' r he' he (hx'.trans hx.symm) (hseq'.trans hseq.symm)
  state := by
    intro e r b he hb
    have hrec := hr.received_iff e r he
    simp only [Db.lastOf, hb, Option.map_some, Option.getD_some] at hrec
    refine ⟨fun hle => ?_, hrec.mpr⟩
    cases hst : r.state with
    | received => exact absurd (hrec.mp hst) (by omega)
    | routed => exact .inl rfl
    | ignored => exact .inr rfl
  routed := by
    intro e r he hst
    obtain ⟨c, row, hc, hev⟩ := hr.event_command e r he hst
    refine ⟨⟨c, ⟨row, hc, hev⟩, ?_⟩, ?_⟩
    · rintro c' ⟨row', hc', hev'⟩
      exact hr.command_unique c' c row' row hc' hc (hev'.trans hev.symm)
    · intro c' row' hc' hev'
      obtain ⟨r', he', -, hx, hseq⟩ := hr.command_event c' row' hc'
      rw [hev', he] at he'
      obtain rfl := Option.some.inj he'
      obtain ⟨o, ho⟩ := Option.isSome_iff_exists.mp ((hr.outbox_iff c').mpr (by rw [hc']; rfl))
      refine ⟨hx.symm, hseq.symm, o, Table.mem_entries_iff.mpr ho, fun o' ho' => ?_⟩
      have ho' := Table.mem_entries_iff.mp ho'
      rw [ho] at ho'
      exact (Option.some.inj ho').symm
  unrouted := by
    rintro e r he hst c row hc rfl
    obtain ⟨r', he', hst', -⟩ := hr.command_event c row hc
    rw [he] at he'
    obtain rfl := Option.some.inj he'
    exact hst hst'
  outbox := by
    intro c o ho
    obtain ⟨row, hc⟩ := Option.isSome_iff_exists.mp ((hr.outbox_iff c).mp (by rw [ho]; rfl))
    obtain ⟨r, he, hst, -⟩ := hr.command_event c row hc
    exact ⟨row, r, hc, he, hst⟩

/-- The routing guarantee of the worker. In every reachable state the inbox is routed in sequence
order; no step lowers a last sequence; an `advance` that commits reports a gap exactly when it
stopped, before its limit, at a stored sequence beyond the next one; and an `advance` that raises or
is aborted leaves the database as it was. -/
theorem worker_routing (cfg : Config) :
    (∀ s, (worker cfg).Reachable s → RoutingSpec s.db) ∧
    (∀ s a s', (worker cfg).Reachable s → step cfg s a = some s' →
      ∀ x, s.db.lastOf x ≤ s'.db.lastOf x) ∧
    (∀ s now x r, (worker cfg).Reachable s → s.routing x = some r →
      match advanceWrite cfg.commandIdOf now x r.eventTypes r.limit r.read s.db with
      | .ok (db, count, gap) =>
        (∃ s', step cfg s (.advanceCommit now x) = some s' ∧ s'.db = db) ∧
        ∀ g, gap = some g ↔ g = db.lastOf x ∧ count < r.limit ∧
          ∃ m, IsLeast (storedAfter r.read.seen x (db.lastOf x)) m ∧ db.lastOf x + 1 < m
      | .error _ => ∃ s', step cfg s (.advanceCommit now x) = some s' ∧ s'.db = s.db) ∧
    (∀ s s' x, step cfg s (.advanceAbort x) = some s' → s'.db = s.db) := by
  refine ⟨fun s hs => (reachable_routing hs).routed.spec,
    fun s a s' hs h x => lastOf_mono (reachable_routing hs) h x, ?_, ?_⟩
  · intro s now x r hs hopen
    have hi := reachable_routing hs
    obtain ⟨hb, hc, hseen⟩ := hi.opened x r hopen
    split
    · rename_i db count gap hw
      refine ⟨⟨{ s with db := db, routing := Function.update s.routing x none }, ?_, rfl⟩, ?_⟩
      · simp only [step, hopen, hw]
      · exact (advanceWrite_spec hw hi.routed hb hc hseen).gap_iff
    · rename_i hw
      refine ⟨{ s with routing := Function.update s.routing x none }, ?_, rfl⟩
      simp only [step, hopen, hw]
  · intro s s' x h
    obtain rfl := Option.some.inj h
    rfl

/-- An event of execution `7`, for runs on concrete inputs. -/
def sampleEvent (eventId sequence : ℕ) (h : 1 ≤ sequence) : ExecutorEvent :=
  ⟨eventId, 7, "OPERATION_SUCCEEDED", sequence, "t", "p", "", by decide, h⟩

/-- A deployment for runs on concrete inputs. -/
def sampleConfig : Config := ⟨"ns", fun e => e + 100, 3⟩

/-- A run that ingests the events `1` and `3` and advances over the first. -/
def gapRun : List Action :=
  [.register 0 7 "session" "task" "api", .ingest (sampleEvent 31 3 (by decide)) false,
    .ingest (sampleEvent 11 1 Nat.one_pos) true, .advanceBegin 7 ["OPERATION_SUCCEEDED"] 10,
    .advanceCommit 5 7]

/-- The guarantee at the end of that run: the first event has its command, the last sequence is
`1`, and the third event waits. -/
theorem worker_routing_gapRun :
    ∃ s, (worker sampleConfig).run .initial gapRun = some s ∧ s.db.lastOf 7 = 1 ∧
      (s.db.commands.get 111).isSome ∧ (s.db.commands.get 131) = none ∧ RoutingSpec s.db := by
  refine ⟨_, rfl, by decide, by decide, by decide, ?_⟩
  have hrun : (worker sampleConfig).run .initial gapRun = some _ := rfl
  exact (worker_routing sampleConfig).1 _ (Machine.Reachable.run (.start rfl) hrun)

end ExAgent.Worker
