import ExAgent.Worker.Routing

/-!
# Order and single execution of commands

A handler runs only when every earlier command of its execution is settled, and a settled command
never runs again. Order is enforced where a command is published and nowhere else:
`Store.claim_outbox` picks a row only when the earlier commands are settled, so every message on its
way, in a publisher's batch or on the stream, names a command that has been released
(`Issued`). Being released is stable, because settled commands stay settled and new commands
come after all old ones. `Store.set_state` writes unconditionally; that it never overwrites a
settled or a newer state rests on the session guard, under which the row has been read.

`StepCase` lists what a step can do to the tables of commands and messages, with the conditions
under which it does it; `RowStep` is what becomes of a command row. The invariant `DispatchInv` is
derived from these.
-/

namespace ExAgent.Worker

open Lib

/-! ## What becomes of a command row -/

/-- The ways a step changes a command row: it does not; a process under the guard writes a state
over `READY` or `RUNNING`; or an operator resolves `FAILED`, in a new generation. -/
inductive RowStep (row row' : CommandRow) : Prop
  | same (h : row' = row)
  | write (hs : row.state = .ready ∨ row.state = .running) (ho : row'.origin = row.origin)
      (hg : row'.generation = row.generation) (hs' : row'.state ≠ .ready)
  | resolve (hs : row.state = .failed) (ho : row'.origin = row.origin)
      (hg : row'.generation = row.generation + 1)
        (hs' : row'.state = .ready ∨ row'.state = .ignored)

/-- A row keeps its origin. -/
theorem RowStep.origin {row row' : CommandRow} (h : RowStep row row') :
    row'.origin = row.origin := by
  cases h with
  | same h => rw [h]
  | write _ ho => exact ho
  | resolve _ ho => exact ho

/-- Generations do not decrease. -/
theorem RowStep.generation_le {row row' : CommandRow} (h : RowStep row row') :
    row.generation ≤ row'.generation := by
  cases h with
  | same h => rw [h]
  | write _ _ hg => exact hg.ge
  | resolve _ _ hg => omega

/-- A settled row does not change. -/
theorem RowStep.eq_of_settled {row row' : CommandRow} (h : RowStep row row')
    (hs : row.state.settled = true) : row' = row := by
  cases h with
  | same h => exact h
  | write hs' =>
    rcases hs' with hs' | hs' <;> rw [hs'] at hs <;> cases hs
  | resolve hs' =>
    rw [hs'] at hs
    cases hs

/-- What becomes of the commands of a database in a step. -/
structure Evolves (db db' : Db) : Prop where
  sessions : db.KeepsSessions db'
  rows : ∀ c row, db.commands.get c = some row →
    ∃ row', db'.commands.get c = some row' ∧ RowStep row row'
  fresh : ∀ c row', db'.commands.get c = some row' → db.commands.get c = none →
    row'.state = .ready ∧ row'.generation = 0 ∧ db.lastOf row'.executionId < row'.sequence

/-- Every earlier command of the execution is settled. -/
def Released (db : Db) (row : CommandRow) : Prop :=
  ∀ c' row', db.commands.get c' = some row' → row'.executionId = row.executionId →
    row'.sequence < row.sequence → row'.state.settled = true

/-- A message for the command in a generation may be on its way: the command exists, has reached
the generation, and is released. -/
def Issued (db : Db) (c : Uuid) (g : ℕ) : Prop :=
  ∃ row, db.commands.get c = some row ∧ g ≤ row.generation ∧ Released db row

/-- A command's sequence has been routed. -/
theorem Routed.sequence_le {db : Db} {last : Uuid → ℕ} (hr : Routed db last) {c : Uuid}
    {row : CommandRow} (hc : db.commands.get c = some row) :
    row.sequence ≤ last row.executionId := by
  obtain ⟨r, he, hst, hx, hseq⟩ := hr.command_event c row hc
  have hrec := hr.received_iff _ _ he
  rw [hst, hx, hseq] at hrec
  by_contra hlt
  exact absurd (hrec.mpr (by omega)) (by simp)

/-- A released command stays released: the earlier ones stay settled, and new ones come later. -/
theorem Evolves.issued {db db' : Db} (h : Evolves db db') (hr : Routed db db.lastOf) {c : Uuid}
    {g : ℕ} (hi : Issued db c g) : Issued db' c g := by
  obtain ⟨row, hc, hg, hrel⟩ := hi
  obtain ⟨row', hc', hstep⟩ := h.rows c row hc
  have ho := hstep.origin
  simp only [CommandRow.origin, Prod.mk.injEq] at ho
  refine ⟨row', hc', hg.trans hstep.generation_le, ?_⟩
  intro e erow' he' hx hlt
  rw [ho.2.1] at hx
  rw [ho.2.2] at hlt
  cases he : db.commands.get e with
  | none =>
    -- A new command comes after every routed sequence.
    have hnew := (h.fresh e erow' he' he).2.2
    have hle := hr.sequence_le hc
    rw [hx] at hnew
    omega
  | some erow =>
    obtain ⟨erow'', he'', hestep⟩ := h.rows e erow he
    rw [he'] at he''
    obtain rfl := Option.some.inj he''
    have heo := hestep.origin
    simp only [CommandRow.origin, Prod.mk.injEq] at heo
    have hset := hrel e erow he (by rw [← heo.2.1, hx]) (by rw [← heo.2.2]; exact hlt)
    rw [hestep.eq_of_settled hset]
    exact hset

/-- A command keeps its session. -/
theorem Evolves.sessionOf {db db' : Db} (h : Evolves db db') {c : Uuid} {sid : String}
    (hs : sessionOf db c = some sid) : sessionOf db' c = some sid := by
  unfold Worker.sessionOf at hs ⊢
  obtain ⟨row, hc, hm⟩ := Option.bind_eq_some_iff.mp hs
  obtain ⟨b, hb, rfl⟩ := Option.map_eq_some_iff.mp hm
  obtain ⟨row', hc', hstep⟩ := h.rows c row hc
  obtain ⟨b', hb', hsid, -⟩ := h.sessions _ b hb
  have ho := hstep.origin
  simp only [CommandRow.origin, Prod.mk.injEq] at ho
  rw [hc', Option.bind_some, ho.2.1, hb', Option.map_some, hsid]

/-- What the join of `Store.command` tells of the row and the session. -/
theorem command_spec {db : Db} {c : Uuid} {view : CommandView} (h : command db c = some view) :
    db.commands.get c = some view.row ∧ sessionOf db c = some view.sessionId := by
  unfold command at h
  obtain ⟨row, hc, h⟩ := Option.bind_eq_some_iff.mp h
  obtain ⟨i, hi, h⟩ := Option.bind_eq_some_iff.mp h
  obtain ⟨b, hb, rfl⟩ := Option.map_eq_some_iff.mp h
  refine ⟨hc, ?_⟩
  unfold Worker.sessionOf
  rw [hc, Option.bind_some, hb, Option.map_some]

/-! ## What a step can do -/

/-- The steps of the worker, as the tables of commands and messages see them. -/
inductive StepCase (cfg : Config) (s s' : State) : Prop
  /-- A binding or the inbox is written, or an `advance` reads or is rolled back. -/
  | quiet {db : Db} {routing : Uuid → Option Routing}
      (hs : s' = { s with db := db, routing := routing })
      (hc : db.commands = s.db.commands) (ho : db.outbox = s.db.outbox)
      (hk : s.db.KeepsSessions db)
  /-- An `advance` adds commands. -/
  | advanced {x : Uuid} {db : Db} {routing : Uuid → Option Routing}
      (hs : s' = { s with db := db, routing := routing })
      (ha : Advanced x (s.db.lastOf x) s.db db) (hk : s.db.KeepsSessions db)
      (hout : ∀ c o, db.outbox.get c = some o → s.db.outbox.get c = none →
        s.db.commands.get c = none ∧ (db.commands.get c).isSome)
  /-- A publisher claims outbox rows under a new token. -/
  | claimed {now : Time} {locked : List Uuid} {limit lease : ℕ} {token : Uuid}
      (hnew : token ∉ s.tokens)
      (hs : s' = { s with
        db := (claimOutbox s.db now locked limit lease token).1
        tokens := token :: s.tokens
        batches := Function.update s.batches token
          (some ((claimOutbox s.db now locked limit lease token).2.map
            fun r => ⟨r.1, r.2, .unknown⟩)) })
  /-- A publisher's `XADD` is answered. -/
  | added {token : Uuid} {rows : List BatchRow} {row : ℕ} {r : BatchRow} {added : Bool}
      {reply : XaddResult} (hb : s.batches token = some rows) (hr : rows[row]? = some r)
      (hreply : reply = .sent → added = true)
      (hs : s' = { s with
        stream := if added
          then s.stream ++ [⟨publishFields cfg.nspace r.commandId r.generation, false, false, 0⟩]
          else s.stream
        batches := Function.update s.batches token (some (setReply rows row reply)) })
  /-- A publisher reports. -/
  | finished {token : Uuid} {rows : List BatchRow} {sent : Bool} (hb : s.batches token = some rows)
      (hs : s' = { s with
        db := finishPublications s.db token
          (repliedIds rows (if sent then .sent else .failed)) sent })
  /-- A publisher dies. -/
  | publisherDied {token : Uuid}
      (hs : s' = { s with batches := Function.update s.batches token none })
  /-- An entry is delivered. -/
  | delivered {p i : ℕ} {e : Entry} {handlers : List String} {maxAttempts : ℕ}
      (hp : s.procs p = none) (he : s.stream[i]? = some e)
      (hs : s' = { s with
        procs := Function.update s.procs p
          (some ⟨i, e.fields, handlers, maxAttempts, .received⟩) })
  /-- A process moves. -/
  | moved {p : ℕ} {proc : Proc} (hp : s.procs p = some proc) (hm : Move cfg s p proc proc.pc s')
  /-- A process dies. -/
  | died {p : ℕ} {proc : Proc} (hp : s.procs p = some proc) (hs : s' = s.die p proc)
  /-- An operator resolves a failed command, under the guard of its session. -/
  | resolved {c : Uuid} {retry : Bool} {actor reason : String} {db : Db}
      (hfree : ∀ sid, sessionOf s.db c = some sid → s.guard sid = none)
      (hr : resolveFailed s.db c retry actor reason = .ok db) (hs : s' = { s with db := db })

/-- Nothing happens. -/
theorem StepCase.idle (cfg : Config) (s : State) : StepCase cfg s s :=
  .quiet rfl rfl rfl (.refl _)

/-- Every step is one of these. -/
theorem step_case {cfg : Config} {s s' : State} {a : Action} (hi : RoutingInv s)
    (h : step cfg s a = some s') : StepCase cfg s s' := by
  cases a with
  | register now x sessionId taskId actor =>
    obtain rfl := Option.some.inj h
    unfold State.commit
    split
    · rename_i db hdb
      have hsame := register_same hdb
      unfold register at hdb
      split at hdb
      · cases hdb
      · -- `register` inserts a binding or finds its own: neither touches the sessions.
        dsimp only at hdb
        split at hdb
        · split at hdb
          · cases hdb
            exact .quiet rfl rfl rfl hsame.sessions
          · cases hdb
        · cases hdb
    · exact .idle cfg s
  | ingest event catchUp =>
    simp only [step] at h
    split at h
    · cases h
    · obtain rfl := Option.some.inj h
      unfold State.commit
      split
      · rename_i db hdb
        have hspec := ingest_spec hdb
        exact .quiet rfl hspec.commands hspec.outbox hspec.sessions
      · exact .idle cfg s
  | finishCatchUp x version =>
    simp only [step] at h
    split at h
    · cases h
    · obtain rfl := Option.some.inj h
      exact .quiet rfl rfl rfl (keepsSessions_modifyAt _ _ _ fun _ => ⟨rfl, rfl⟩)
  | scanError now x error =>
    simp only [step] at h
    split at h
    · cases h
    · obtain rfl := Option.some.inj h
      exact .quiet rfl rfl rfl (keepsSessions_modifyAt _ _ _ fun _ => ⟨rfl, rfl⟩)
  | advanceBegin x types limit =>
    simp only [step] at h
    split at h
    · cases h
    · split at h
      · obtain rfl := Option.some.inj h
        exact .idle cfg s
      · obtain rfl := Option.some.inj h
        exact .quiet rfl rfl rfl (.refl _)
  | advanceCommit now x =>
    simp only [step] at h
    split at h
    · cases h
    · rename_i r hopen
      split at h
      · obtain rfl := Option.some.inj h
        exact .quiet rfl rfl rfl (.refl _)
      · rename_i db count gap hw
        obtain rfl := Option.some.inj h
        obtain ⟨hb, hc, hseen⟩ := hi.opened x r hopen
        have hdone := advanceWrite_spec hw hi.routed hb hc hseen
        refine .advanced rfl hdone.advanced hdone.sessions ?_
        intro c o ho hnone
        have hold := (hi.routed.outbox_iff c).not.mp (by rw [hnone]; simp)
        exact ⟨by simpa using hold, (hdone.routed.outbox_iff c).mp (by rw [ho]; rfl)⟩
  | advanceAbort x =>
    -- Only a routed batch adds rows to the outbox: each is new, and of a command that now exists.
    obtain rfl := Option.some.inj h
    exact .quiet rfl rfl rfl (.refl _)
  | claimOutbox now locked limit lease token =>
    simp only [step] at h
    split at h
    · cases h
    · rename_i hnew
      obtain rfl := Option.some.inj h
      exact .claimed hnew rfl
  | xadd token row added reply =>
    simp only [step] at h
    split at h
    · cases h
    · rename_i rows hb
      split at h
      · cases h
      · rename_i r hr
        split at h
        · cases h
        · rename_i hcond
          push Not at hcond
          obtain rfl := Option.some.inj h
          exact .added hb hr hcond.2.2 rfl
  | finishPublications token sent =>
    simp only [step] at h
    split at h
    · cases h
    · rename_i rows hb
      split at h
      · cases h
      · obtain rfl := Option.some.inj h
        exact .finished hb rfl
  | publisherDies token =>
    obtain rfl := Option.some.inj h
    exact .publisherDied rfl
  | deliver p i handlers maxAttempts =>
    simp only [step] at h
    split at h
    · rename_i e hp he
      obtain rfl := Option.some.inj h
      exact .delivered hp he rfl
    · cases h
  | work p choice =>
    simp only [step] at h
    split at h
    · cases h
    · rename_i proc hp
      exact .moved hp (State.work_move h)
  | processDies p =>
    simp only [step] at h
    split at h
    · cases h
    · rename_i proc hp
      -- An operator resolves a failed command only while nobody holds its session.
      obtain rfl := Option.some.inj h
      exact .died hp rfl
  | resolveFailed c retry actor reason =>
    have hcommit : (∀ sid, sessionOf s.db c = some sid → s.guard sid = none) →
        StepCase cfg s (s.commit (resolveFailed s.db c retry actor reason)) := by
      intro hfree
      unfold State.commit
      split
      · exact .resolved hfree ‹_› rfl
      · exact .idle cfg s
    simp only [step] at h
    split at h
    · rename_i hnone
      obtain rfl := Option.some.inj h
      exact hcommit fun sid hsid => by rw [hnone] at hsid; cases hsid
    · rename_i sid hsome
      split at h
      · cases h
      · rename_i hguard
        obtain rfl := Option.some.inj h
        refine hcommit fun sid' hsid' => ?_
        rw [hsome] at hsid'
        obtain rfl := Option.some.inj hsid'
        simpa using hguard

/-! ## The invariant of processes and messages -/

/-- The command a process has looked up, from its first read on. -/
def Pc.target : Pc → Option Target
  | .located t => some t
  | pc => pc.guarded

/-- What a process under the guard knows of its command's state, once it has decided to run it. -/
def Pc.expects : Pc → Option (CommandState → Bool)
  | .accepted _ _ => some fun st => st = .ready ∨ st = .running
  | .started _ _ | .invoked _ _ | .ended _ _ _ => some fun st => st = .running
  | _ => none

/-- A process under the guard has looked its command up. -/
theorem Pc.target_of_guarded {pc : Pc} {t : Target} (h : pc.guarded = some t) :
    pc.target = some t := by
  cases pc <;> first | exact h | cases h

/-- A process that expects a state is under the guard. -/
theorem Pc.guarded_of_expects {pc : Pc} {f : CommandState → Bool} (h : pc.expects = some f) :
    ∃ t, pc.guarded = some t := by
  cases pc <;> first | exact ⟨_, rfl⟩ | cases h

/-- The target is the command of the message, in its session. -/
structure Names (db : Db) (c : Uuid) (g : ℕ) (t : Target) : Prop where
  commandId : t.commandId = c
  generation : t.generation = g
  session : sessionOf db c = some t.sessionId

/-- What holds of a process working on a message for command `c` in generation `g`. -/
structure PcInv (s : State) (p : ℕ) (c : Uuid) (g : ℕ) (pc : Pc) : Prop where
  names : ∀ t, pc.target = some t → Names s.db c g t
  guard : ∀ t, pc.guarded = some t → s.guard t.sessionId = some p
  row : ∀ f, pc.expects = some f →
    ∃ row, s.db.commands.get c = some row ∧ row.generation = g ∧ f row.state = true
  write : ∀ t w h, pc = .ended t w h → w.state ≠ .ready

/-- What holds of a process. -/
def ProcInv (cfg : Config) (s : State) (p : ℕ) (proc : Proc) : Prop :=
  ∃ c g, proc.fields = publishFields cfg.nspace c g ∧ Issued s.db c g ∧ PcInv s p c g proc.pc

/-- The invariant behind the order of commands. -/
structure DispatchInv (cfg : Config) (s : State) : Prop where
  /-- Every entry of the stream is a message that may be on its way. -/
  entry : ∀ (i : ℕ) (e : Entry), s.stream[i]? = some e →
    ∃ c g, e.fields = publishFields cfg.nspace c g ∧ Issued s.db c g
  /-- So is every row of a publisher's batch. -/
  batch : ∀ token rows, s.batches token = some rows →
    ∀ r ∈ rows, Issued s.db r.commandId r.generation
  /-- An outbox row is not ahead of its command. -/
  outbox : ∀ c o row, s.db.outbox.get c = some o → s.db.commands.get c = some row →
    o.generation ≤ row.generation
  proc : ∀ p proc, s.procs p = some proc → ProcInv cfg s p proc

/-- What holds of a process is kept by a step that evolves the commands, leaves its guard with it,
and does not touch its command while it holds the guard. -/
theorem PcInv.frame {s s' : State} {p : ℕ} {c : Uuid} {g : ℕ} {pc : Pc} (h : PcInv s p c g pc)
    (hev : Evolves s.db s'.db)
    (hg : ∀ t, pc.guarded = some t → s.guard t.sessionId = some p → s'.guard t.sessionId = some p)
    (hc : ∀ t, pc.guarded = some t → s'.db.commands.get c = s.db.commands.get c) :
    PcInv s' p c g pc where
  names := by
    intro t ht
    obtain ⟨h₁, h₂, h₃⟩ := h.names t ht
    exact ⟨h₁, h₂, hev.sessionOf h₃⟩
  guard := fun t ht => hg t ht (h.guard t ht)
  row := by
    intro f hf
    obtain ⟨t, ht⟩ := Pc.guarded_of_expects hf
    rw [hc t ht]
    exact h.row f hf
  write := h.write

/-- A command row after `set_state`. -/
def CommandRow.written (row : CommandRow) (w : StateWrite) : CommandRow :=
  { row with
    state := w.state
    lastError := clipError w.error
    failureAttempts := row.failureAttempts + if w.failedAttempt then 1 else 0 }

/-- The commands after `set_state`. -/
theorem setState_commands (db : Db) (c k : Uuid) (w : StateWrite) :
    (setState db c w.state w.error w.failedAttempt).commands.get k =
      if k = c then (db.commands.get k).map (·.written w) else db.commands.get k :=
  Table.get_modifyAt ..

/-- The write of a process under the guard evolves the commands. -/
theorem evolves_write {db : Db} {c : Uuid} {w : StateWrite} {row : CommandRow}
    (hc : db.commands.get c = some row) (hs : row.state = .ready ∨ row.state = .running)
    (hw : w.state ≠ .ready) : Evolves db (setState db c w.state w.error w.failedAttempt) where
  sessions := .refl db
  rows := by
    intro k krow hk
    rw [setState_commands]
    by_cases hkc : k = c
    · subst hkc
      rw [hc] at hk
      obtain rfl := Option.some.inj hk
      exact ⟨row.written w, by rw [if_pos rfl, hc, Option.map_some], .write hs rfl rfl hw⟩
    · exact ⟨krow, by rw [if_neg hkc, hk], .same rfl⟩
  fresh := by
    intro k krow hk hnone
    have hsome := (setState_same db c w).commands k
    rw [hk, hnone] at hsome
    cases hsome

/-- What an operator's resolution does to the rows of a database. -/
theorem resolveFailed_spec {db db' : Db} {c : Uuid} {retry : Bool} {actor reason : String}
    (h : resolveFailed db c retry actor reason = .ok db') :
    ∃ row, db.commands.get c = some row ∧ row.state = .failed ∧ db'.bindings = db.bindings ∧
      (∀ k, db'.commands.get k = if k = c
        then some { row with
          state := if retry then .ready else .ignored
          generation := row.generation + 1
          failureAttempts := 0
          lastError := none }
        else db.commands.get k) ∧
      ∀ k, db'.outbox.get k = if retry = true ∧ k = c
        then (db.outbox.get k).map fun o =>
          { o with
            generation := row.generation + 1
            state := .pending
            claimToken := none
            claimUntil := none }
        else db.outbox.get k := by
  unfold resolveFailed at h
  split at h
  · cases h
  · split at h
    · cases h
    · rename_i row hrow
      split at h
      · rename_i hfailed
        cases h
        refine ⟨row, hrow, hfailed, rfl, fun k => ?_, fun k => ?_⟩
        · simp only [Table.get_modifyAt]
          by_cases hk : k = c
          · subst hk
            simp [hrow]
          · simp [hk]
        · cases retry with
          | true => simp [Table.get_modifyAt]
          | false => simp
      · cases h

/-- A resolution evolves the commands. -/
theorem evolves_resolve {db db' : Db} {c : Uuid} {retry : Bool} {actor reason : String}
    (h : resolveFailed db c retry actor reason = .ok db') : Evolves db db' := by
  obtain ⟨row, hc, hfailed, hb, hrows, -⟩ := resolveFailed_spec h
  refine ⟨fun x b hx => ⟨b, by rw [hb, hx], rfl, rfl⟩, fun k krow hk => ?_,
    fun k krow hk hnone => ?_⟩
  · rw [hrows]
    by_cases hkc : k = c
    · subst hkc
      rw [hc] at hk
      obtain rfl := Option.some.inj hk
      rw [if_pos rfl]
      exact ⟨_, rfl, .resolve hfailed rfl rfl (by cases retry <;> simp)⟩
    · exact ⟨krow, by rw [if_neg hkc, hk], .same rfl⟩
  · rw [hrows] at hk
    split at hk
    · rename_i hkc
      rw [hkc, hc] at hnone
      cases hnone
    · rw [hnone] at hk
      cases hk

/-- Commands that do not change evolve. -/
theorem evolves_same {db db' : Db} (hk : db.KeepsSessions db')
    (hc : ∀ c, db'.commands.get c = db.commands.get c) : Evolves db db' where
  sessions := hk
  rows := fun c row h => ⟨row, by rw [hc, h], .same rfl⟩
  fresh := by
    intro c row h hnone
    rw [hc, hnone] at h
    cases h

/-- The commands an `advance` adds evolve a database. -/
theorem Advanced.evolves {x : Uuid} {db db' : Db} (h : Advanced x (db.lastOf x) db db')
    (hk : db.KeepsSessions db') : Evolves db db' where
  sessions := hk
  rows := fun c row hc => ⟨row, h.commands c row hc, .same rfl⟩
  fresh := by
    intro c row hc hnone
    obtain ⟨hst, hg, hx, hlt, -⟩ := h.fresh c row hc hnone
    exact ⟨hst, hg, by rw [hx]; exact hlt⟩

/-! ## Moves keep the invariant -/

/-- What a move leaves alone: the other processes, the publishers, the fields of the entries and the
generations of the outbox. -/
structure MoveFrame (s s' : State) (p : ℕ) : Prop where
  others : ∀ q, q ≠ p → s'.procs q = s.procs q
  batches : s'.batches = s.batches
  tokens : s'.tokens = s.tokens
  fields : ∀ i : ℕ, (s'.stream[i]?).map Entry.fields = (s.stream[i]?).map Entry.fields
  outbox : ∀ c, (s'.db.outbox.get c).map OutboxRow.generation =
    (s.db.outbox.get c).map OutboxRow.generation

/-- Marking an entry keeps the fields. -/
theorem fields_modify (stream : List Entry) (i j : ℕ) (f : Entry → Entry)
    (hf : ∀ e, (f e).fields = e.fields) :
    ((stream.modify i f)[j]?).map Entry.fields = (stream[j]?).map Entry.fields := by
  rw [List.getElem?_modify]
  cases stream[j]? with
  | none => rfl
  | some e =>
    by_cases hij : i = j
    · simp [hij, hf]
    · simp [hij]

/-- `set_state` keeps the generations of the outbox. -/
theorem setState_outbox_generation (db : Db) (c k : Uuid) (w : StateWrite) :
    ((setState db c w.state w.error w.failedAttempt).outbox.get k).map OutboxRow.generation =
      (db.outbox.get k).map OutboxRow.generation := by
  simp only [setState]
  split
  · rw [Table.get_modifyAt]
    split
    · rw [Option.map_map]
      rfl
    · rfl
  · rfl

/-- Every move keeps its frame. -/
theorem Move.frame {cfg : Config} {s s' : State} {p : ℕ} {proc : Proc} {pc : Pc}
    (h : Move cfg s p proc pc s') : MoveFrame s s' p := by
  have hother : ∀ q, q ≠ p → ∀ v, Function.update s.procs p v q = s.procs q :=
    fun q hq v => Function.update_of_ne hq ..
  have hmark : ∀ f : Entry → Entry, (∀ e, (f e).fields = e.fields) → ∀ j : ℕ,
      ((s.stream.modify proc.entry f)[j]?).map Entry.fields = (s.stream[j]?).map Entry.fields :=
    fun f hf j => fields_modify s.stream proc.entry j f hf
  cases h with
  | start =>
    exact ⟨fun q hq => hother q hq _, rfl, rfl, fun _ => rfl,
      fun _ => setState_outbox_generation ..⟩
  | startLost =>
    exact ⟨fun q hq => hother q hq _, rfl, rfl, fun _ => rfl,
      fun _ => setState_outbox_generation ..⟩
  | settle =>
    exact ⟨fun q hq => hother q hq _, rfl, rfl, fun _ => rfl,
      fun _ => setState_outbox_generation ..⟩
  | settleLost =>
    exact ⟨fun q hq => hother q hq _, rfl, rfl, fun _ => rfl,
      fun _ => setState_outbox_generation ..⟩
  | ack => exact ⟨fun q hq => hother q hq _, rfl, rfl, hmark _ fun _ => rfl, fun _ => rfl⟩
  | deadLetter => exact ⟨fun q hq => hother q hq _, rfl, rfl, hmark _ fun _ => rfl, fun _ => rfl⟩
  | count => exact ⟨fun q hq => hother q hq _, rfl, rfl, hmark _ fun _ => rfl, fun _ => rfl⟩
  | exhaust => exact ⟨fun q hq => hother q hq _, rfl, rfl, hmark _ fun _ => rfl, fun _ => rfl⟩
  | _ => exact ⟨fun q hq => hother q hq _, rfl, rfl, fun _ => rfl, fun _ => rfl⟩

/-- The writes of a move: none, or one over `READY` or `RUNNING` in the message's generation. -/
theorem Move.write_cases {cfg : Config} {s s' : State} {p : ℕ} {proc : Proc} {pc : Pc} {c : Uuid}
    {g : ℕ} (h : Move cfg s p proc pc s') (hp : PcInv s p c g pc) :
    s'.db = s.db ∨ ∃ t, ∃ w : StateWrite, ∃ row, pc.guarded = some t ∧ t.commandId = c ∧
      s'.db = setState s.db c w.state w.error w.failedAttempt ∧ s.db.commands.get c = some row ∧
      row.generation = g ∧ (row.state = .ready ∨ row.state = .running) ∧ w.state ≠ .ready := by
  -- The two points at which a process writes, with what it expects there.
  have haccepted : ∀ {t view}, pc = .accepted t view → t.commandId = c ∧
      ∃ row, s.db.commands.get c = some row ∧ row.generation = g ∧
        (row.state = .ready ∨ row.state = .running) := by
    rintro t view rfl
    obtain ⟨row, hc, hg, hst⟩ := hp.row _ rfl
    exact ⟨(hp.names t rfl).commandId, row, hc, hg, by simpa using hst⟩
  have hended : ∀ {t : Target} {w : StateWrite} {hd}, pc = .ended t w hd →
      t.commandId = c ∧ w.state ≠ .ready ∧
      ∃ row, s.db.commands.get c = some row ∧ row.generation = g ∧
        (row.state = .ready ∨ row.state = .running) := by
    rintro t w hd rfl
    obtain ⟨row, hc, hg, hst⟩ := hp.row _ rfl
    exact ⟨(hp.names t rfl).commandId, hp.write t w hd rfl, row, hc, hg,
      .inr (by simpa using hst)⟩
  cases h with
  | start =>
    obtain ⟨hid, row, hc, hg, hst⟩ := haccepted rfl
    exact .inr ⟨_, runningWrite, row, rfl, hid, by rw [← hid]; rfl, hc, hg, hst, by decide⟩
  | startLost =>
    obtain ⟨hid, row, hc, hg, hst⟩ := haccepted rfl
    exact .inr ⟨_, runningWrite, row, rfl, hid, by rw [← hid]; rfl, hc, hg, hst, by decide⟩
  | settle =>
    obtain ⟨hid, hw, row, hc, hg, hst⟩ := hended rfl
    exact .inr ⟨_, _, row, rfl, hid, by rw [← hid]; rfl, hc, hg, hst, hw⟩
  | settleLost =>
    obtain ⟨hid, hw, row, hc, hg, hst⟩ := hended rfl
    exact .inr ⟨_, _, row, rfl, hid, by rw [← hid]; rfl, hc, hg, hst, hw⟩
  | _ => exact .inl rfl

/-- A move evolves the commands. -/
theorem Move.evolves {cfg : Config} {s s' : State} {p : ℕ} {proc : Proc} {pc : Pc} {c : Uuid}
    {g : ℕ} (h : Move cfg s p proc pc s') (hp : PcInv s p c g pc) : Evolves s.db s'.db := by
  rcases h.write_cases hp with hdb | ⟨t, w, row, -, -, hdb, hc, -, hst, hw⟩
  · rw [hdb]
    exact evolves_same (.refl _) fun _ => rfl
  · rw [hdb]
    exact evolves_write hc hst hw

/-- A move leaves the guard of another process with it: a guard that is taken was free, and one
that is released was the process's own. -/
theorem Move.guard_other {cfg : Config} {s s' : State} {p q : ℕ} {proc : Proc} {pc : Pc} {c : Uuid}
    {g : ℕ} (h : Move cfg s p proc pc s') (hp : PcInv s p c g pc) (hq : q ≠ p) {sid : String}
    (hsid : s.guard sid = some q) : s'.guard sid = some q := by
  cases h with
  | acquire hfree =>
    change Function.update s.guard _ (some p) sid = some q
    rw [Function.update_of_ne, hsid]
    rintro rfl
    rw [hfree] at hsid
    cases hsid
  | leave hh =>
    rename_i t _ _
    change Function.update s.guard t.sessionId none sid = some q
    rw [Function.update_of_ne, hsid]
    rintro rfl
    rw [hp.guard t rfl] at hsid
    exact hq (Option.some.inj hsid).symm
  | _ => exact hsid

/-- `dispatchCheck` runs a command only when the generations agree and it is `READY` or
`RUNNING`. -/
theorem dispatchCheck_run {handlers : List String} {g : ℕ} {v : Option CommandView}
    {view : CommandView} (h : dispatchCheck handlers g v = .run view) :
    v = some view ∧ view.row.generation = g ∧
      (view.row.state = .ready ∨ view.row.state = .running) := by
  cases v with
  | none => cases h
  | some v =>
    dsimp only [dispatchCheck] at h
    split_ifs at h with hg hsettled hfailed hhandler
    obtain rfl : v = view := by simpa using h
    push Not at hg hsettled
    refine ⟨rfl, hg.symm, ?_⟩
    cases hst : v.row.state with
    | ready => exact .inl rfl
    | running => exact .inr rfl
    | done => exact absurd hst hsettled.1
    | ignored => exact absurd hst hsettled.2
    | failed => exact absurd hst hfailed

/-- The last write of `_dispatch` is never `READY`. -/
theorem afterHandler_write {maxAttempts failureAttempts : ℕ} {o : HandlerOutcome} {w : StateWrite}
    {h : Handled} (ha : afterHandler maxAttempts failureAttempts o = (some w, h)) :
    w.state ≠ .ready := by
  cases o with
  | returned =>
    obtain ⟨rfl, -⟩ : _ = w ∧ _ = h := by simpa [afterHandler] using ha
    simp
  | raisedDefer => simp [afterHandler] at ha
  | raisedIgnore m =>
    obtain ⟨rfl, -⟩ : _ = w ∧ _ = h := by simpa [afterHandler] using ha
    simp
  | raisedReject m =>
    obtain ⟨rfl, -⟩ : _ = w ∧ _ = h := by simpa [afterHandler, afterHandler.failure] using ha
    simp
  | raisedOther n m =>
    simp only [afterHandler, afterHandler.failure] at ha
    split at ha
    · obtain ⟨rfl, -⟩ : _ = w ∧ _ = h := by simpa using ha
      simp
    · obtain ⟨rfl, -⟩ : _ = w ∧ _ = h := by simpa using ha
      simp

/-- Standing somewhere else without having written. -/
theorem PcInv.goto {s : State} {p : ℕ} {proc : Proc} {c : Uuid} {g : ℕ} {pc : Pc}
    (h : PcInv s p c g pc) : PcInv (s.goto p proc pc) p c g pc :=
  ⟨h.names, h.guard, h.row, h.write⟩

/-- A point that only needs the guard. -/
theorem PcInv.of_guarded {s : State} {p : ℕ} {c : Uuid} {g : ℕ} {pc pc' : Pc} {t : Target}
    (h : PcInv s p c g pc) (ht : pc.guarded = some t)
    (hpc' : pc' = .holding t ∨ ∃ hd, pc' = .leaving t hd) : PcInv s p c g pc' := by
  have hn := h.names t (Pc.target_of_guarded ht)
  have hg := h.guard t ht
  rcases hpc' with rfl | ⟨hd, rfl⟩
  · refine ⟨?_, ?_, nofun, by rintro _ _ _ ⟨⟩⟩
    · rintro t' ⟨⟩
      exact hn
    · rintro t' ⟨⟩
      exact hg
  · refine ⟨?_, ?_, nofun, by rintro _ _ _ ⟨⟩⟩
    · rintro t' ⟨⟩
      exact hn
    · rintro t' ⟨⟩
      exact hg

/-- A point that needs nothing. -/
theorem PcInv.of_finished {s : State} {p : ℕ} {c : Uuid} {g : ℕ} {pc : Pc}
    (hpc : (∃ hd, pc = .finished hd) ∨ ∃ reason, pc = .exhausted reason) : PcInv s p c g pc := by
  rcases hpc with ⟨hd, rfl⟩ | ⟨reason, rfl⟩ <;>
    exact ⟨nofun, nofun, nofun, by rintro _ _ _ ⟨⟩⟩

/-- Leaving the guarded section after a write. -/
theorem PcInv.leaving_write {s : State} {p : ℕ} {proc : Proc} {c : Uuid} {g : ℕ} {pc : Pc}
    {t : Target} {w : StateWrite} {hd : Handled} (h : PcInv s p c g pc)
    (ht : pc.guarded = some t) (hev : Evolves s.db (s.write t w).db) :
    PcInv ((s.write t w).goto p proc (.leaving t hd)) p c g (.leaving t hd) := by
  have hn := h.names t (Pc.target_of_guarded ht)
  refine ⟨?_, ?_, nofun, by rintro _ _ _ ⟨⟩⟩
  · rintro t' ⟨⟩
    exact ⟨hn.commandId, hn.generation, hev.sessionOf hn.session⟩
  · rintro t' ⟨⟩
    exact h.guard t ht

/-- A move keeps what holds of its own process. -/
theorem Move.self {cfg : Config} {s s' : State} {p : ℕ} {proc proc' : Proc} {c : Uuid} {g : ℕ}
    (h : Move cfg s p proc proc.pc s') (hf : proc.fields = publishFields cfg.nspace c g)
    (hp : PcInv s p c g proc.pc) (hp' : s'.procs p = some proc') :
    proc'.fields = proc.fields ∧ PcInv s' p c g proc'.pc := by
  have hev := h.evolves hp
  -- A move that goes somewhere keeps the fields; one that drops the process leaves nothing.
  have hgoto : ∀ {t : State} {pc : Pc}, (t.goto p proc pc).procs p = some proc' →
      proc' = { proc with pc := pc } := by
    intro t pc ht
    rw [State.goto_procs, Function.update_self] at ht
    exact (Option.some.inj ht).symm
  have hdrop : ∀ {t : State}, (t.drop p).procs p = some proc' → False := by
    intro t ht
    rw [State.drop_procs, Function.update_self] at ht
    cases ht
  generalize hpc : proc.pc = pc at h hp
  cases h with
  | unreadable => rw [hgoto hp']; exact ⟨rfl, .of_finished (.inl ⟨_, rfl⟩)⟩
  | unknown => rw [hgoto hp']; exact ⟨rfl, .of_finished (.inl ⟨_, rfl⟩)⟩
  | locate hdec hcmd =>
    rw [hgoto hp']
    refine ⟨rfl, ?_, nofun, nofun, by rintro _ _ _ ⟨⟩⟩
    rintro t ⟨⟩
    rw [hf, decodeEnvelope_publishFields] at hdec
    obtain ⟨rfl, rfl⟩ : c = _ ∧ g = _ := by simpa using Except.ok.inj hdec
    exact ⟨rfl, rfl, (command_spec hcmd).2⟩
  | acquire hfree =>
    rw [hgoto hp']
    refine ⟨rfl, ?_, ?_, nofun, by rintro _ _ _ ⟨⟩⟩
    · rintro t ⟨⟩
      exact hp.names _ rfl
    · rintro t ⟨⟩
      exact Function.update_self ..
  | giveUp => rw [hgoto hp']; exact ⟨rfl, .of_finished (.inl ⟨_, rfl⟩)⟩
  | stop => rw [hgoto hp']; exact ⟨rfl, (hp.of_guarded rfl (.inr ⟨_, rfl⟩)).goto⟩
  | accept hd =>
    rw [hgoto hp']
    have hn := hp.names _ rfl
    obtain ⟨hcmd, hgen, hst⟩ := dispatchCheck_run hd
    rw [hn.commandId] at hcmd
    refine ⟨rfl, ?_, ?_, ?_, by rintro _ _ _ ⟨⟩⟩
    · rintro t ⟨⟩
      exact hn
    · rintro t ⟨⟩
      exact hp.guard _ rfl
    · rintro f ⟨⟩
      exact ⟨_, (command_spec hcmd).1, hgen.trans hn.generation, by simpa using hst⟩
  | start =>
    rename_i t view
    rw [hgoto hp']
    have hn := hp.names t rfl
    obtain ⟨row, hc, hg, -⟩ := hp.row _ rfl
    refine ⟨rfl, ?_, ?_, ?_, by rintro _ _ _ ⟨⟩⟩
    · rintro t' ⟨⟩
      exact ⟨hn.commandId, hn.generation, hev.sessionOf hn.session⟩
    · rintro t' ⟨⟩
      exact hp.guard t rfl
    · rintro f ⟨⟩
      refine ⟨row.written runningWrite, ?_, hg, rfl⟩
      rw [State.goto_db, State.write_db, setState_commands, hn.commandId, if_pos rfl, hc,
        Option.map_some]
  | startLost => rw [hgoto hp']; exact ⟨rfl, hp.leaving_write rfl hev⟩
  | invoke =>
    rw [hgoto hp']
    exact ⟨rfl, ⟨fun t ht => hp.names t ht, fun t ht => hp.guard t ht, fun f hf => hp.row f hf,
      by rintro _ _ _ ⟨⟩⟩⟩
  | judge ha =>
    rw [hgoto hp']
    refine ⟨rfl, fun t ht => hp.names t ht, fun t ht => hp.guard t ht, fun f hf => hp.row f hf, ?_⟩
    rintro t w hd ⟨⟩
    exact afterHandler_write ha
  | settle => rw [hgoto hp']; exact ⟨rfl, hp.leaving_write rfl hev⟩
  | settleLost => rw [hgoto hp']; exact ⟨rfl, hp.leaving_write rfl hev⟩
  | abandon hguard => rw [hgoto hp']; exact ⟨rfl, (hp.of_guarded hguard (.inr ⟨_, rfl⟩)).goto⟩
  | leave => rw [hgoto hp']; exact ⟨rfl, .of_finished (.inl ⟨_, rfl⟩)⟩
  | ack => exact (hdrop hp').elim
  | deadLetter => exact (hdrop hp').elim
  | count => exact (hdrop hp').elim
  | exhaust => rw [hgoto hp']; exact ⟨rfl, .of_finished (.inr ⟨_, rfl⟩)⟩
  | keep => exact (hdrop hp').elim

/-! ## Steps keep the invariant -/

/-- A row that may be claimed is `READY` and released. -/
theorem claimable_spec {db : Db} {now : Time} {c : Uuid} {o : OutboxRow}
    (h : db.claimable now c o = true) :
    ∃ row, db.commands.get c = some row ∧ row.state = .ready ∧ Released db row ∧
      (o.state = .pending ∨ o.state = .claimed) := by
  unfold Db.claimable at h
  split at h
  · cases h
  · rename_i row hc
    simp only [decide_eq_true_eq, Bool.decide_and, Bool.and_eq_true, Bool.decide_or,
      Bool.or_eq_true] at h
    obtain ⟨hready, hout, hsettled⟩ := h
    refine ⟨row, hc, hready, ?_, ?_⟩
    · intro c' row' hc' hx hlt
      have := List.all_eq_true.mp hsettled (c', row') (Table.mem_entries_iff.mpr hc')
      simpa [hx, hlt] using this
    · rcases hout with hout | hout
      · exact .inl hout
      · exact .inr hout.1

/-- What `claim_outbox` picks. -/
theorem mem_claimPicked {db : Db} {now : Time} {locked : List Uuid} {limit : ℕ} {c : Uuid}
    (h : c ∈ claimPicked db now locked limit) :
    ∃ o, db.outbox.get c = some o ∧ db.claimable now c o = true := by
  unfold claimPicked at h
  obtain ⟨e, he, rfl⟩ := List.mem_map.mp (List.mem_of_mem_take h)
  rw [List.mem_insertionSort, List.mem_filter] at he
  simp only [Bool.decide_and, Bool.decide_eq_true, Bool.and_eq_true] at he
  exact ⟨e.2, Table.mem_entries_iff.mp he.1, he.2.1⟩

/-- What `claim_outbox` returns: the picked rows with their generations. -/
theorem mem_claimOutbox {db : Db} {now : Time} {locked : List Uuid} {limit lease : ℕ}
    {token c : Uuid} {g : ℕ} (h : (c, g) ∈ (claimOutbox db now locked limit lease token).2) :
    c ∈ claimPicked db now locked limit ∧
      ∃ o, db.outbox.get c = some o ∧ o.generation = g := by
  unfold claimOutbox at h
  obtain ⟨⟨k, o⟩, hmem, hif⟩ := List.mem_filterMap.mp h
  split at hif
  · rename_i hpicked
    obtain ⟨rfl, rfl⟩ : k = c ∧ o.generation = g := by simpa using hif
    exact ⟨hpicked, o, Table.mem_entries_iff.mp hmem, rfl⟩
  · cases hif

/-- The outbox after `claim_outbox`. -/
theorem claimOutbox_outbox {db : Db} {now : Time} {locked : List Uuid} {limit lease : ℕ}
    {token c : Uuid} {o' : OutboxRow}
    (h : (claimOutbox db now locked limit lease token).1.outbox.get c = some o') :
    ∃ o, db.outbox.get c = some o ∧
      ((c ∈ claimPicked db now locked limit ∧ o' = { o with
          state := .claimed
          claimToken := some token
          claimUntil := some (now + lease) }) ∨
        (c ∉ claimPicked db now locked limit ∧ o' = o)) := by
  dsimp only [claimOutbox] at h
  rw [Table.get_modify] at h
  obtain ⟨o, ho, rfl⟩ := Option.map_eq_some_iff.mp h
  by_cases hp : c ∈ claimPicked db now locked limit
  · exact ⟨o, ho, .inl ⟨hp, if_pos hp⟩⟩
  · exact ⟨o, ho, .inr ⟨hp, if_neg hp⟩⟩

/-- The outbox after `finish_publications`. -/
theorem finishPublications_outbox {db : Db} {token c : Uuid} {ids : List Uuid} {sent : Bool}
    {o' : OutboxRow} (h : (finishPublications db token ids sent).outbox.get c = some o') :
    ∃ o, db.outbox.get c = some o ∧
      ((o.claimToken = some token ∧ c ∈ ids ∧ o' = { o with
          state := if sent then .sent else .pending
          claimToken := none
          claimUntil := none }) ∨
        (¬ (o.claimToken = some token ∧ c ∈ ids) ∧ o' = o)) := by
  dsimp only [finishPublications] at h
  rw [Table.get_modify] at h
  obtain ⟨o, ho, rfl⟩ := Option.map_eq_some_iff.mp h
  by_cases hp : o.claimToken = some token ∧ c ∈ ids
  · exact ⟨o, ho, .inl ⟨hp.1, hp.2, if_pos hp⟩⟩
  · exact ⟨o, ho, .inr ⟨hp, if_neg hp⟩⟩

/-- The commands evolve in every step. -/
theorem StepCase.evolves {cfg : Config} {s s' : State} (h : StepCase cfg s s')
    (hi : DispatchInv cfg s) : Evolves s.db s'.db := by
  cases h with
  | quiet hs hc ho hk =>
    subst hs
    exact evolves_same hk fun c => by rw [hc]
  | advanced hs ha hk hout =>
    subst hs
    exact ha.evolves hk
  | claimed hnew hs =>
    subst hs
    exact evolves_same (.refl _) fun _ => rfl
  | added hb hr hreply hs =>
    subst hs
    exact evolves_same (.refl _) fun _ => rfl
  | finished hb hs =>
    subst hs
    exact evolves_same (.refl _) fun _ => rfl
  | publisherDied hs =>
    subst hs
    exact evolves_same (.refl _) fun _ => rfl
  | delivered hp he hs =>
    subst hs
    exact evolves_same (.refl _) fun _ => rfl
  | moved hp hm =>
    obtain ⟨c, g, -, -, hpc⟩ := hi.proc _ _ hp
    exact hm.evolves hpc
  | died hp hs =>
    subst hs
    unfold State.die
    split <;> exact evolves_same (.refl _) fun _ => rfl
  | resolved hfree hr hs =>
    subst hs
    exact evolves_resolve hr

/-- A process keeps what holds of it under a step that leaves it where it is, leaves its guard with
it, and does not touch its command while it holds the guard. -/
theorem ProcInv.frame {cfg : Config} {s s' : State} {p : ℕ} {proc : Proc}
    (h : ProcInv cfg s p proc) (hr : Routed s.db s.db.lastOf) (hev : Evolves s.db s'.db)
    (hg : ∀ sid, s.guard sid = some p → s'.guard sid = some p)
    (hc : ∀ c t row, proc.pc.guarded = some t → s.guard t.sessionId = some p →
      sessionOf s.db c = some t.sessionId → s.db.commands.get c = some row →
      s'.db.commands.get c = some row) : ProcInv cfg s' p proc := by
  obtain ⟨c, g, hf, hiss, hpc⟩ := h
  refine ⟨c, g, hf, hev.issued hr hiss, hpc.frame hev (fun t _ ht => hg _ ht) fun t ht => ?_⟩
  obtain ⟨row, hrow, -⟩ := hiss
  rw [hrow]
  exact hc c t row ht (hpc.guard t ht) (hpc.names t (Pc.target_of_guarded ht)).session hrow

/-- Every step keeps what holds of the processes. -/
theorem StepCase.proc {cfg : Config} {s s' : State} (h : StepCase cfg s s')
    (hr : Routed s.db s.db.lastOf) (hi : DispatchInv cfg s) (q : ℕ) (proc' : Proc)
    (hq : s'.procs q = some proc') : ProcInv cfg s' q proc' := by
  have hev := h.evolves hi
  cases h with
  | quiet hs hc ho hk =>
    subst hs
    exact (hi.proc q proc' hq).frame hr hev (fun _ h => h) fun c t row _ _ _ h => by
      simpa only [hc] using h
  | advanced hs ha hk hout =>
    subst hs
    exact (hi.proc q proc' hq).frame hr hev (fun _ h => h) fun c t row _ _ _ h =>
      ha.commands c row h
  | claimed hnew hs =>
    subst hs
    exact (hi.proc q proc' hq).frame hr hev (fun _ h => h) fun c t row _ _ _ h => h
  | added hb hr' hreply hs =>
    subst hs
    exact (hi.proc q proc' hq).frame hr hev (fun _ h => h) fun c t row _ _ _ h => h
  | finished hb hs =>
    subst hs
    exact (hi.proc q proc' hq).frame hr hev (fun _ h => h) fun c t row _ _ _ h => h
  | publisherDied hs =>
    subst hs
    exact (hi.proc q proc' hq).frame hr hev (fun _ h => h) fun c t row _ _ _ h => h
  | delivered hp he hs =>
    subst hs
    rename_i p i e handlers maxAttempts
    by_cases hqp : q = p
    · -- The new process has a message of the stream, and knows nothing yet.
      subst hqp
      dsimp only at hq
      rw [Function.update_self] at hq
      obtain rfl := Option.some.inj hq
      obtain ⟨c, g, hf, hiss⟩ := hi.entry i e he
      exact ⟨c, g, hf, hiss, by rintro _ ⟨⟩, by rintro _ ⟨⟩, by rintro _ ⟨⟩, by rintro _ _ _ ⟨⟩⟩
    · dsimp only at hq
      rw [Function.update_of_ne hqp] at hq
      exact (hi.proc q proc' hq).frame hr hev (fun _ h => h) fun c t row _ _ _ h => h
  | moved hp hm =>
    rename_i p proc
    obtain ⟨c, g, hf, hiss, hpc⟩ := hi.proc p proc hp
    -- The process that moved, by its own move; the others see its guard and its write.
    by_cases hqp : q = p
    · subst hqp
      obtain ⟨hf', hpc'⟩ := hm.self hf hpc hq
      exact ⟨c, g, hf'.trans hf, hev.issued hr hiss, hpc'⟩
    · rw [hm.frame.others q hqp] at hq
      refine (hi.proc q proc' hq).frame hr hev (fun _ => hm.guard_other hpc hqp) ?_
      intro k t row ht hguard hsess hrow
      rcases hm.write_cases hpc with hdb | ⟨t', w, row', ht', hid, hdb, -⟩
      · rw [hdb, hrow]
      · -- A write to the same command would be under the same guard.
        rw [hdb, setState_commands, if_neg, hrow]
        rintro rfl
        have hn := (hpc.names t' (Pc.target_of_guarded ht')).session
        rw [hsess] at hn
        have hg' := hpc.guard t' ht'
        rw [← Option.some.inj hn, hguard] at hg'
        exact hqp (Option.some.inj hg')
  | died hp hs =>
    rename_i p proc
    subst hs
    obtain ⟨c, g, hf, hiss, hpc⟩ := hi.proc p proc hp
    -- A process that died is not in the table, and its guard is another session's.
    have hqp : q ≠ p := by
      rintro rfl
      unfold State.die at hq
      split at hq <;> rw [State.drop_procs, Function.update_self] at hq <;> cases hq
    have hq' : s.procs q = some proc' := by
      unfold State.die at hq
      split at hq <;> rw [State.drop_procs, Function.update_of_ne hqp] at hq <;> exact hq
    refine (hi.proc q proc' hq').frame hr hev (fun sid hsid => ?_) ?_
    · unfold State.die
      split
      · rename_i t ht
        rw [State.drop_guard, State.release_guard, Function.update_of_ne, hsid]
        rintro rfl
        rw [hpc.guard t ht] at hsid
        exact hqp (Option.some.inj hsid).symm
      · exact hsid
    · intro k t row _ _ _ hrow
      unfold State.die
      split <;> exact hrow
  | resolved hfree hres hs =>
    rename_i c₀ retry actor reason db
    subst hs
    refine (hi.proc q proc' hq).frame hr hev (fun _ h => h) ?_
    intro k t row ht hguard hsess hrow
    obtain ⟨_, -, -, -, hrows, -⟩ := resolveFailed_spec hres
    -- The resolved command's session is free, so no process holds it.
    change db.commands.get k = some row
    rw [hrows, if_neg, hrow]
    rintro rfl
    rw [hfree _ hsess] at hguard
    cases hguard

/-- A row of a batch after a reply is a row from before, for the same message. -/
theorem mem_setReply {rows : List BatchRow} {i : ℕ} {reply : XaddResult} {r' : BatchRow}
    (h : r' ∈ setReply rows i reply) :
    ∃ r, r ∈ rows ∧ r'.commandId = r.commandId ∧ r'.generation = r.generation ∧
      (r' = r ∨ (rows[i]? = some r ∧ r'.result = reply)) := by
  obtain ⟨j, hj⟩ := List.mem_iff_getElem?.mp h
  rw [setReply, List.getElem?_modify] at hj
  obtain ⟨r, hr, rfl⟩ := Option.map_eq_some_iff.mp hj
  refine ⟨r, List.mem_of_getElem? hr, ?_⟩
  by_cases hij : i = j
  · subst hij
    rw [if_pos rfl]
    exact ⟨rfl, rfl, .inr ⟨hr, rfl⟩⟩
  · rw [if_neg hij]
    exact ⟨rfl, rfl, .inl rfl⟩

/-- An entry of the stream after a move has the fields it had before. -/
theorem MoveFrame.entry {s s' : State} {p : ℕ} (h : MoveFrame s s' p) {i : ℕ} {e' : Entry}
    (he : s'.stream[i]? = some e') : ∃ e, s.stream[i]? = some e ∧ e.fields = e'.fields := by
  have hf := h.fields i
  rw [he, Option.map_some] at hf
  exact Option.map_eq_some_iff.mp hf.symm

/-- Every step keeps the invariant. -/
theorem DispatchInv.step {cfg : Config} {s s' : State} (hi : DispatchInv cfg s)
    (hr : Routed s.db s.db.lastOf) (h : StepCase cfg s s') : DispatchInv cfg s' := by
  have hev := h.evolves hi
  have hproc := h.proc hr hi
  -- Messages that were on their way still are.
  have hentry : ∀ (i : ℕ) (e : Entry), s.stream[i]? = some e →
      ∃ c g, e.fields = publishFields cfg.nspace c g ∧ Issued s'.db c g := by
    intro i e he
    obtain ⟨c, g, hf, hiss⟩ := hi.entry i e he
    exact ⟨c, g, hf, hev.issued hr hiss⟩
  have hbatch : ∀ token rows, s.batches token = some rows → ∀ r ∈ rows,
      Issued s'.db r.commandId r.generation :=
    fun token rows hb r hmem => hev.issued hr (hi.batch token rows hb r hmem)
  have houtbox : (∀ c o', s'.db.outbox.get c = some o' →
      ∃ o, s.db.outbox.get c = some o ∧ o'.generation = o.generation) →
      (∀ c row', s'.db.commands.get c = some row' → (s.db.commands.get c).isSome) →
      ∀ c o row, s'.db.outbox.get c = some o → s'.db.commands.get c = some row →
        o.generation ≤ row.generation := by
    intro hout hcmd c o' row' ho' hc'
    obtain ⟨o, ho, hog⟩ := hout c o' ho'
    obtain ⟨row, hc⟩ := Option.isSome_iff_exists.mp (hcmd c row' hc')
    obtain ⟨row'', hc'', hstep⟩ := hev.rows c row hc
    rw [hc'] at hc''
    obtain rfl := Option.some.inj hc''
    have hle := hi.outbox c o row ho hc
    have := hstep.generation_le
    omega
  cases h with
  | quiet hs hc ho hk =>
    subst hs
    refine ⟨hentry, hbatch, houtbox ?_ ?_, hproc⟩
    · intro c o' ho'
      exact ⟨o', by simpa only [ho] using ho', rfl⟩
    · intro c row' hc'
      simp only [hc] at hc'
      rw [hc']
      rfl
  | advanced hs ha hk hout =>
    subst hs
    refine ⟨hentry, hbatch, ?_, hproc⟩
    intro c o row ho hc
    cases hc₀ : s.db.commands.get c with
    | none =>
      obtain ⟨-, -, -, -, now, hnew⟩ := ha.fresh c row hc hc₀
      change _ = some o at ho
      rw [hnew] at ho
      obtain rfl := Option.some.inj ho
      exact Nat.zero_le _
    | some row₀ =>
      have hrow := ha.commands c row₀ hc₀
      change _ = some row at hc
      rw [hrow] at hc
      obtain rfl := Option.some.inj hc
      cases ho₀ : s.db.outbox.get c with
      | none =>
        have := (hout c o ho ho₀).1
        rw [hc₀] at this
        cases this
      | some o₀ =>
        have hold := ha.outbox c o₀ ho₀
        change _ = some o at ho
        rw [hold] at ho
        obtain rfl := Option.some.inj ho
        exact hi.outbox c o₀ row₀ ho₀ hc₀
  | claimed hnew hs =>
    rename_i now locked limit lease token
    subst hs
    refine ⟨hentry, ?_, houtbox ?_ (fun c row hc => Option.isSome_iff_exists.mpr ⟨row, hc⟩), hproc⟩
    · intro t rows hb r hmem
      by_cases ht : t = token
      · -- The rows that were picked are released, in the generation of the outbox.
        subst ht
        dsimp only at hb
        rw [Function.update_self] at hb
        obtain rfl := Option.some.inj hb
        obtain ⟨⟨c, g⟩, hcg, rfl⟩ := List.mem_map.mp hmem
        obtain ⟨hpicked, o, ho, rfl⟩ := mem_claimOutbox hcg
        obtain ⟨o', ho', hclaim⟩ := mem_claimPicked hpicked
        obtain ⟨row, hc, -, hrel, -⟩ := claimable_spec hclaim
        exact ⟨row, hc, hi.outbox c o row ho hc, hrel⟩
      · dsimp only at hb
        rw [Function.update_of_ne ht] at hb
        exact hbatch t rows hb r hmem
    · intro c o' ho'
      obtain ⟨o, ho, ⟨-, rfl⟩ | ⟨-, rfl⟩⟩ := claimOutbox_outbox ho'
      · exact ⟨o, ho, rfl⟩
      · exact ⟨o', ho, rfl⟩
  | added hb hrow hreply hs =>
    rename_i token rows row r added reply
    subst hs
    have hmem : r ∈ rows := List.mem_of_getElem? hrow
    refine ⟨?_, ?_, fun c o row ho hc => hi.outbox c o row ho hc, hproc⟩
    · intro i e he
      dsimp only at he
      split at he
      · rcases List.mem_append.mp (List.mem_of_getElem? he) with hold | hnew
        · obtain ⟨j, hj⟩ := List.mem_iff_getElem?.mp hold
          exact hentry j e hj
        · -- The new entry is the row of the batch.
          obtain rfl := List.mem_singleton.mp hnew
          exact ⟨r.commandId, r.generation, rfl, hbatch token rows hb r hmem⟩
      · exact hentry i e he
    · intro t rows' hb' r' hmem'
      by_cases ht : t = token
      · subst ht
        dsimp only at hb'
        rw [Function.update_self] at hb'
        obtain rfl := Option.some.inj hb'
        obtain ⟨r₀, hmem₀, hid, hgen, -⟩ := mem_setReply hmem'
        rw [hid, hgen]
        exact hbatch t rows hb r₀ hmem₀
      · dsimp only at hb'
        rw [Function.update_of_ne ht] at hb'
        exact hbatch t rows' hb' r' hmem'
  | finished hb hs =>
    rename_i token rows sent
    subst hs
    refine ⟨hentry, hbatch,
      houtbox ?_ (fun c row hc => Option.isSome_iff_exists.mpr ⟨row, hc⟩), hproc⟩
    intro c o' ho'
    obtain ⟨o, ho, ⟨-, -, rfl⟩ | ⟨-, rfl⟩⟩ := finishPublications_outbox ho'
    · exact ⟨o, ho, rfl⟩
    · exact ⟨o', ho, rfl⟩
  | publisherDied hs =>
    rename_i token
    subst hs
    refine ⟨hentry, ?_, fun c o row ho hc => hi.outbox c o row ho hc, hproc⟩
    intro t rows hb r hmem
    by_cases ht : t = token
    · subst ht
      dsimp only at hb
      rw [Function.update_self] at hb
      cases hb
    · dsimp only at hb
      rw [Function.update_of_ne ht] at hb
      exact hbatch t rows hb r hmem
  | delivered hp he hs =>
    subst hs
    exact ⟨hentry, hbatch, fun c o row ho hc => hi.outbox c o row ho hc, hproc⟩
  | moved hp hm =>
    have hframe := hm.frame
    refine ⟨?_, ?_, houtbox ?_ ?_, hproc⟩
    · intro i e' he'
      obtain ⟨e, he, hf⟩ := hframe.entry he'
      rw [← hf]
      exact hentry i e he
    · rw [hframe.batches]
      exact hbatch
    · intro c o' ho'
      have hgen := hframe.outbox c
      rw [ho', Option.map_some] at hgen
      obtain ⟨o, ho, hog⟩ := Option.map_eq_some_iff.mp hgen.symm
      exact ⟨o, ho, hog.symm⟩
    · intro c row' hc'
      have := (hm.same.2.commands c)
      rw [hc'] at this
      obtain ⟨row, hrow, -⟩ := Option.map_eq_some_iff.mp this.symm
      rw [hrow]
      rfl
  | died hp hs =>
    subst hs
    refine ⟨?_, ?_, ?_, hproc⟩
    · rw [State.die_stream]
      exact hentry
    · rw [State.die_batches]
      exact hbatch
    · rw [State.die_db]
      exact hi.outbox
  | resolved hfree hres hs =>
    subst hs
    refine ⟨hentry, hbatch, ?_, hproc⟩
    obtain ⟨row, hc, -, -, hrows, houts⟩ := resolveFailed_spec hres
    intro k o' row' ho' hc'
    dsimp only at ho' hc'
    rw [hrows] at hc'
    rw [houts] at ho'
    split at hc'
    · rename_i hk
      subst hk
      obtain rfl := Option.some.inj hc'
      split at ho'
      · obtain ⟨o, -, rfl⟩ := Option.map_eq_some_iff.mp ho'
        exact le_rfl
      · exact (hi.outbox _ o' row ho' hc).trans (Nat.le_succ _)
    · rename_i hk
      rw [if_neg fun h => hk h.2] at ho'
      exact hi.outbox k o' row' ho' hc'

/-- The invariant holds in every reachable state. -/
theorem reachable_dispatch {cfg : Config} {s : State} (h : (worker cfg).Reachable s) :
    DispatchInv cfg s := by
  refine h.invariant (fun s hs => ?_) (fun s a s' hr hi hs => ?_)
  · obtain rfl : s = .initial := hs
    refine ⟨fun i e he => ?_, fun token rows hb => ?_, fun c o row ho => ?_, fun p proc hp => ?_⟩
    · simp [State.initial] at he
    · simp [State.initial] at hb
    · simp [State.initial, Db.empty] at ho
    · simp [State.initial] at hp
  · have hrouting := reachable_routing hr
    exact hi.step hrouting.routed (step_case hrouting hs)

/-! ## The result -/

/-- The action calls the handler of a command, for a message with the given fields. -/
def Invokes (s : State) (a : Action) (fields : Fields) (c : Uuid) : Prop :=
  ∃ p proc t view, a = .work p .ok ∧ s.procs p = some proc ∧ proc.pc = .started t view ∧
    proc.fields = fields ∧ t.commandId = c

/-- A call of a handler is for a `RUNNING` command in the message's generation that is released. -/
theorem invokes_spec {cfg : Config} {s : State} {a : Action} {fields : Fields} {c : Uuid}
    (hi : DispatchInv cfg s) (h : Invokes s a fields c) :
    ∃ row, s.db.commands.get c = some row ∧ row.state = .running ∧ Released s.db row ∧
      decodeEnvelope cfg.nspace fields = .ok (c, row.generation) := by
  obtain ⟨p, proc, t, view, -, hp, hpc, rfl, rfl⟩ := h
  obtain ⟨c, g, hf, ⟨row, hc, -, hrel⟩, hinv⟩ := hi.proc p proc hp
  rw [hpc] at hinv
  have hn := hinv.names t rfl
  obtain ⟨row', hc', hg, hst⟩ := hinv.row _ rfl
  rw [hc] at hc'
  obtain rfl := Option.some.inj hc'
  rw [hn.commandId, hf, decodeEnvelope_publishFields]
  exact ⟨row, hc, by simpa using hst, hrel, by rw [hg]⟩

/-- A settled state is `DONE` or `IGNORED`. -/
theorem settled_iff {st : CommandState} :
    st.settled = true ↔ st = .done ∨ st = .ignored := by
  cases st <;> simp [CommandState.settled]

/-- A command that is settled stays in its state along every run. -/
theorem settled_stable {cfg : Config} {s s' : State} {c : Uuid} {row : CommandRow}
    (hs : (worker cfg).Reachable s) (hc : s.db.commands.get c = some row)
    (hset : row.state.settled = true) (hl : (worker cfg).Leads s s') :
    s'.db.commands.get c = some row := by
  refine Machine.Leads.stable (P := fun t => t.db.commands.get c = some row)
    (fun t a t' ht hP hstep => ?_) hs hc hl
  have hrouting := reachable_routing ht
  have hev := (step_case hrouting hstep).evolves (reachable_dispatch ht)
  obtain ⟨row', hc', hrow⟩ := hev.rows c row hP
  rw [hrow.eq_of_settled hset] at hc'
  exact hc'

/-- Order and single execution. In every reachable state of the worker, a handler is called for a
command only when every earlier command of its execution is `DONE` or `IGNORED`, and only for a
message in the generation of the command's row; and a command that is `DONE` or `IGNORED` is so in
every later state, in which its handler is never called. -/
theorem worker_ordering (cfg : Config) (s : State) (hs : (worker cfg).Reachable s) :
    (∀ a fields c, Invokes s a fields c →
      ∃ row, s.db.commands.get c = some row ∧
        (∀ c' row', s.db.commands.get c' = some row' → row'.executionId = row.executionId →
          row'.sequence < row.sequence → row'.state = .done ∨ row'.state = .ignored) ∧
        decodeEnvelope cfg.nspace fields = .ok (c, row.generation)) ∧
    (∀ c row, s.db.commands.get c = some row → row.state = .done ∨ row.state = .ignored →
      ∀ s', (worker cfg).Leads s s' →
        (∃ row', s'.db.commands.get c = some row' ∧ row'.state = row.state) ∧
        ∀ a fields, ¬ Invokes s' a fields c) := by
  refine ⟨fun a fields c hinv => ?_, fun c row hc hset s' hl => ?_⟩
  · obtain ⟨row, hc, -, hrel, hdec⟩ := invokes_spec (reachable_dispatch hs) hinv
    exact ⟨row, hc, fun c' row' hc' hx hlt => settled_iff.mp (hrel c' row' hc' hx hlt), hdec⟩
  · have hset := settled_iff.mpr hset
    have hc' := settled_stable hs hc hset hl
    refine ⟨⟨row, hc', rfl⟩, fun a fields hinv => ?_⟩
    obtain ⟨row', hrow', hrun, -⟩ := invokes_spec (reachable_dispatch (hs.leads hl)) hinv
    rw [hc'] at hrow'
    obtain rfl := Option.some.inj hrow'
    rw [hrun] at hset
    cases hset

/-- A run that routes, publishes and delivers the first event of an execution, up to the call of
its handler. -/
def dispatchRun : List Action :=
  [.register 0 7 "session" "task" "api", .ingest (sampleEvent 11 1 Nat.one_pos) false,
    .advanceBegin 7 ["OPERATION_SUCCEEDED"] 10, .advanceCommit 5 7, .claimOutbox 6 [] 10 30 900,
    .xadd 900 0 true .sent, .finishPublications 900 true,
    .deliver 1 0 ["OPERATION_SUCCEEDED"] 5, .work 1 .ok, .work 1 .ok, .work 1 .ok, .work 1 .ok]

/-- Two events of an execution, routed together: the first one's command is published, delivered and
handled, and then the second one's, up to the call of its handler. -/
def secondRun : List Action :=
  [.register 0 7 "session" "task" "api", .ingest (sampleEvent 11 1 Nat.one_pos) false,
    .ingest (sampleEvent 12 2 Nat.two_pos) false, .advanceBegin 7 ["OPERATION_SUCCEEDED"] 10,
    .advanceCommit 5 7, .claimOutbox 6 [] 10 30 900, .xadd 900 0 true .sent,
    .finishPublications 900 true, .deliver 1 0 ["OPERATION_SUCCEEDED"] 5, .work 1 .ok, .work 1 .ok,
    .work 1 .ok, .work 1 .ok, .work 1 .ok, .work 1 (.outcome .returned), .work 1 .ok,
    .work 1 .ok, .work 1 .ok, .claimOutbox 40 [] 10 30 901, .xadd 901 0 true .sent,
    .finishPublications 901 true, .deliver 1 1 ["OPERATION_SUCCEEDED"] 5, .work 1 .ok, .work 1 .ok,
    .work 1 .ok, .work 1 .ok]

/-- At the end of that run the second command's handler is called next, and the first command is
settled. -/
theorem worker_ordering_secondRun :
    ∃ s row, (worker sampleConfig).run .initial secondRun = some s ∧
      Invokes s (.work 1 .ok) (publishFields "ns" 112 0) 112 ∧
      s.db.commands.get 111 = some row ∧ (row.state = .done ∨ row.state = .ignored) := by
  have hrun : (worker sampleConfig).run .initial secondRun = some _ := rfl
  have hinvokes := worker_ordering sampleConfig _ (Machine.Reachable.run (.start rfl) hrun)
  obtain ⟨row, hrow, hearlier, -⟩ := hinvokes.1 (.work 1 .ok) (publishFields "ns" 112 0) 112
    ⟨1, _, _, _, rfl, rfl, rfl, rfl, rfl⟩
  obtain rfl := Option.some.inj hrow
  exact ⟨_, _, hrun, ⟨1, _, _, _, rfl, rfl, rfl, rfl, rfl⟩, rfl,
    hearlier 111 _ rfl rfl (by decide)⟩

end ExAgent.Worker
