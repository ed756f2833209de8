import ExAgent.Worker.Ordering

/-!
# No command is lost

A command that still has to run is always on its way: its outbox row waits or is claimed, or an
unacknowledged message in its generation is on the stream. Three tables change in separate
transactions, and the invariant `DeliveryInv` ties them together. A message is acknowledged only
when its generation has closed, that is, when the command has moved on to a later generation or has
ended in this one (`Closed`); a closed generation never opens again (`Evolves.closed`). A publisher
marks a row `SENT` only for the claim it holds, whose generation is still the row's, and only after
the entry was added.

What `_dispatch` decides is carried from the point where it read the row to the consumer's
acknowledgement by `HandledInv`: an acknowledged message found its command settled or in a later
generation, and a dead-lettered one found it `FAILED` or in a later generation.
-/

namespace ExAgent.Worker

open Lib

/-! ## Closed generations -/

/-- If the command is still in the generation, its state is as given. -/
def AtGeneration (db : Db) (c : Uuid) (g : ℕ) (P : CommandState → Prop) : Prop :=
  ∀ row, db.commands.get c = some row → row.generation = g → P row.state

/-- A state that ends a generation. -/
def CommandState.closed (st : CommandState) : Prop := st ≠ .ready ∧ st ≠ .running

/-- The generation of a command has ended. -/
def Closed (db : Db) (c : Uuid) (g : ℕ) : Prop := AtGeneration db c g CommandState.closed

/-- How a generation ended does not change. -/
theorem Evolves.atGeneration {db db' : Db} (h : Evolves db db') {c : Uuid} {g : ℕ}
    {P : CommandState → Prop} (hP : ∀ st, P st → st.closed) (hi : Issued db c g)
    (hat : AtGeneration db c g P) : AtGeneration db' c g P := by
  intro row' hc' hg'
  obtain ⟨row, hc, hle, -⟩ := hi
  obtain ⟨row'', hc'', hstep⟩ := h.rows c row hc
  rw [hc'] at hc''
  obtain rfl := Option.some.inj hc''
  have hmono := hstep.generation_le
  have hstate := hat row hc (by omega)
  obtain ⟨hready, hrunning⟩ := hP _ hstate
  cases hstep with
  | same heq =>
    rw [heq]
    exact hstate
  | write hs => rcases hs with hs | hs <;> contradiction
  | resolve _ _ hg =>
    -- The generation has moved on.
    omega

/-- A closed generation stays closed. -/
theorem Evolves.closed {db db' : Db} (h : Evolves db db') {c : Uuid} {g : ℕ} (hi : Issued db c g)
    (hc : Closed db c g) : Closed db' c g :=
  h.atGeneration (fun _ h => h) hi hc

/-! ## What a dispatch has decided -/

/-- What the end of a call of `handle` says of the command of its message. -/
def HandledInv (db : Db) (c : Uuid) (g : ℕ) : Handled → Prop
  | .permanent _ => AtGeneration db c g fun st => st = .failed
  | .raised _ => False
  | .result r => r.decision ≠ .retry ∧ r.decision ≠ .deadLetter ∧
    (r.decision = .ack → AtGeneration db c g fun st => st.settled = true)

/-- The last write of `_dispatch` and the end of the call agree. -/
def WriteAgrees (w : StateWrite) : Handled → Prop
  | .permanent _ => w.state = .failed
  | .raised _ => False
  | .result r => r.decision ≠ .retry ∧ r.decision ≠ .deadLetter ∧
    (r.decision = .ack → w.state.settled = true)

/-- A settled state is closed. -/
theorem closed_of_settled (st : CommandState) (h : st.settled = true) : st.closed := by
  cases st with
  | done => exact ⟨nofun, nofun⟩
  | ignored => exact ⟨nofun, nofun⟩
  | ready => cases h
  | running => cases h
  | failed => cases h

/-- `FAILED` is closed. -/
theorem closed_of_failed (st : CommandState) (h : st = .failed) : st.closed := by
  subst h
  exact ⟨nofun, nofun⟩

/-- `DEFER` says nothing. -/
theorem handledInv_deferred (db : Db) (c : Uuid) (g : ℕ) : HandledInv db c g .deferred :=
  ⟨nofun, nofun, nofun⟩

/-- What was decided stays true. -/
theorem Evolves.handledInv {db db' : Db} (h : Evolves db db') {c : Uuid} {g : ℕ} {hd : Handled}
    (hi : Issued db c g) (hh : HandledInv db c g hd) : HandledInv db' c g hd := by
  cases hd with
  | permanent reason => exact h.atGeneration closed_of_failed hi hh
  | raised reason => exact hh
  | result r =>
    obtain ⟨h₁, h₂, h₃⟩ := hh
    exact ⟨h₁, h₂, fun hack => h.atGeneration closed_of_settled hi (h₃ hack)⟩

/-- The decision of `_dispatch` from the row it read. -/
theorem dispatchCheck_finish {db : Db} {handlers : List String} {c : Uuid} {g : ℕ} {hd : Handled}
    {view : CommandView} (hcmd : command db c = some view)
    (h : dispatchCheck handlers g (some view) = .finish hd) : HandledInv db c g hd := by
  have hrow := (command_spec hcmd).1
  dsimp only [dispatchCheck] at h
  split_ifs at h with hgen hsettled hfailed hhandler
  · -- An older generation.
    cases h
    refine ⟨nofun, nofun, fun _ row hc hg => ?_⟩
    rw [hrow] at hc
    obtain rfl := Option.some.inj hc
    exact absurd hg.symm hgen
  · cases h
    refine ⟨nofun, nofun, fun _ row hc hg => ?_⟩
    rw [hrow] at hc
    obtain rfl := Option.some.inj hc
    exact settled_iff.mpr hsettled
  · cases h
    intro row hc hg
    rw [hrow] at hc
    obtain rfl := Option.some.inj hc
    exact hfailed
  · cases h
    exact handledInv_deferred db c g

/-- The end of a call after its handler. -/
theorem afterHandler_agrees {maxAttempts failureAttempts : ℕ} {o : HandlerOutcome} {w : StateWrite}
    {hd : Handled} (ha : afterHandler maxAttempts failureAttempts o = (some w, hd)) :
    WriteAgrees w hd := by
  cases o with
  | returned =>
    obtain ⟨rfl, rfl⟩ : _ = w ∧ _ = hd := by simpa [afterHandler] using ha
    exact ⟨by simp, by simp, fun _ => rfl⟩
  | raisedDefer => simp [afterHandler] at ha
  | raisedIgnore m =>
    obtain ⟨rfl, rfl⟩ : _ = w ∧ _ = hd := by simpa [afterHandler] using ha
    exact ⟨by simp, by simp, fun _ => rfl⟩
  | raisedReject m =>
    obtain ⟨rfl, rfl⟩ : _ = w ∧ _ = hd := by simpa [afterHandler, afterHandler.failure] using ha
    rfl
  | raisedOther n m =>
    simp only [afterHandler, afterHandler.failure] at ha
    split at ha
    · obtain ⟨rfl, rfl⟩ : _ = w ∧ _ = hd := by simpa using ha
      rfl
    · obtain ⟨rfl, rfl⟩ : _ = w ∧ _ = hd := by simpa using ha
      exact ⟨by simp, by simp, by simp⟩

/-- What is written agrees with what is decided. -/
theorem WriteAgrees.handledInv {db : Db} {c : Uuid} {g : ℕ} {w : StateWrite} {hd : Handled}
    (h : WriteAgrees w hd) :
    HandledInv (setState db c w.state w.error w.failedAttempt) c g hd := by
  -- Whatever row the command has now, it has the written state.
  have hstate : ∀ row, (setState db c w.state w.error w.failedAttempt).commands.get c = some row →
      row.state = w.state := by
    intro row hc
    rw [setState_commands, if_pos rfl] at hc
    obtain ⟨row₀, -, rfl⟩ := Option.map_eq_some_iff.mp hc
    rfl
  cases hd with
  | permanent reason =>
    intro row hc _
    rw [hstate row hc]
    exact h
  | raised reason => exact h
  | result r =>
    obtain ⟨h₁, h₂, h₃⟩ := h
    refine ⟨h₁, h₂, fun hack row hc _ => ?_⟩
    rw [hstate row hc]
    exact h₃ hack

/-! ## The invariant -/

/-- An unacknowledged message for the command in the generation is on the stream. -/
def OnStream (cfg : Config) (s : State) (c : Uuid) (g : ℕ) : Prop :=
  ∃ (i : ℕ) (e : Entry), s.stream[i]? = some e ∧ e.fields = publishFields cfg.nspace c g ∧
    e.acked = false

/-- What a process at a point has decided, or is about to write. -/
structure DecisionInv (db : Db) (c : Uuid) (g : ℕ) (pc : Pc) : Prop where
  handled : ∀ hd, (∃ t, pc = .leaving t hd) ∨ pc = .finished hd → HandledInv db c g hd
  agrees : ∀ t w hd, pc = .ended t w hd → WriteAgrees w hd
  never : ∀ reason, pc ≠ .exhausted reason

/-- The invariant behind delivery. -/
structure DeliveryInv (cfg : Config) (s : State) : Prop where
  /-- Claim tokens in use have been given. -/
  token : ∀ c o t, s.db.outbox.get c = some o → o.claimToken = some t → t ∈ s.tokens
  batchToken : ∀ t rows, s.batches t = some rows → ∀ r ∈ rows, t ∈ s.tokens
  /-- A row that is still under a batch's claim is in the generation of the batch. -/
  batchGeneration : ∀ t rows, s.batches t = some rows → ∀ r ∈ rows, ∀ o,
    s.db.outbox.get r.commandId = some o → o.claimToken = some t → o.generation = r.generation
  /-- What a publisher knows to be sent is on the stream. -/
  batchSent : ∀ t rows, s.batches t = some rows → ∀ r ∈ rows, r.result = .sent →
    ∃ (i : ℕ) (e : Entry), s.stream[i]? = some e ∧
      e.fields = publishFields cfg.nspace r.commandId r.generation
  /-- Outbox and command agree on the generation, unless the command was skipped. -/
  generation : ∀ c row o, s.db.commands.get c = some row → s.db.outbox.get c = some o →
    row.state ≠ .ignored → o.generation = row.generation
  /-- An acknowledged message's generation is closed. -/
  acked : ∀ (i : ℕ) (e : Entry), s.stream[i]? = some e → e.acked = true →
    ∀ c g, e.fields = publishFields cfg.nspace c g → Closed s.db c g
  ready : ∀ c row, s.db.commands.get c = some row → row.state = .ready →
    ∃ o, s.db.outbox.get c = some o ∧
      (o.state = .pending ∨ o.state = .claimed ∨ OnStream cfg s c row.generation)
  running : ∀ c row, s.db.commands.get c = some row → row.state = .running →
    OnStream cfg s c row.generation
  /-- A process works on an entry of the stream, and its decision holds. -/
  proc : ∀ p proc, s.procs p = some proc →
    (∃ e : Entry, s.stream[proc.entry]? = some e ∧ e.fields = proc.fields) ∧
      ∀ c g, proc.fields = publishFields cfg.nspace c g → DecisionInv s.db c g proc.pc

/-! ## What a step does to the stream -/

/-- What becomes of the entries of the stream in a step. An entry keeps its fields; it is
acknowledged only when its generation is closed, and dead-lettered only when its command is `FAILED`
in that generation. A new entry is neither. -/
structure StreamStep (cfg : Config) (s s' : State) : Prop where
  kept : ∀ (i : ℕ) (e : Entry), s.stream[i]? = some e →
    ∃ e', s'.stream[i]? = some e' ∧ e'.fields = e.fields ∧
      (e'.acked = true → e.acked = true ∨
        ∀ c g, e.fields = publishFields cfg.nspace c g → Closed s.db c g) ∧
      (e'.dead = true → e.dead = true ∨
        ∀ c g, e.fields = publishFields cfg.nspace c g → AtGeneration s.db c g (· = .failed))
  fresh : ∀ (i : ℕ) (e' : Entry), s'.stream[i]? = some e' → s.stream[i]? = none →
    e'.acked = false ∧ e'.dead = false

/-- A stream that does not change. -/
theorem StreamStep.of_eq {cfg : Config} {s s' : State} (h : s'.stream = s.stream) :
    StreamStep cfg s s' where
  kept := fun i e he => ⟨e, by rw [h, he], rfl, .inl, .inl⟩
  fresh := by
    intro i e' he' hnone
    rw [h, hnone] at he'
    cases he'

/-- An entry is marked. -/
theorem StreamStep.of_modify {cfg : Config} {s s' : State} {i : ℕ} {f : Entry → Entry} {e₀ : Entry}
    (h : s'.stream = s.stream.modify i f) (he₀ : s.stream[i]? = some e₀)
    (hfields : (f e₀).fields = e₀.fields)
    (hacked : (f e₀).acked = true → e₀.acked = true ∨
      ∀ c g, e₀.fields = publishFields cfg.nspace c g → Closed s.db c g)
    (hdead : (f e₀).dead = true → e₀.dead = true ∨
      ∀ c g, e₀.fields = publishFields cfg.nspace c g → AtGeneration s.db c g (· = .failed)) :
    StreamStep cfg s s' where
  kept := by
    intro j e he
    rw [h, List.getElem?_modify, he]
    by_cases hij : i = j
    · subst hij
      rw [he₀] at he
      obtain rfl := Option.some.inj he
      exact ⟨f e₀, by simp, hfields, hacked, hdead⟩
    · exact ⟨e, by simp [hij], rfl, .inl, .inl⟩
  fresh := by
    intro j e' he' hnone
    rw [h, List.getElem?_modify, hnone] at he'
    cases he'

/-- A move marks the entry of its process, as its decision allows. -/
theorem Move.stream {cfg : Config} {s s' : State} {p : ℕ} {proc : Proc} {c : Uuid} {g : ℕ}
    {e : Entry} (h : Move cfg s p proc proc.pc s') (he : s.stream[proc.entry]? = some e)
    (hfe : e.fields = proc.fields) (hf : proc.fields = publishFields cfg.nspace c g)
    (hd : DecisionInv s.db c g proc.pc) : StreamStep cfg s s' := by
  -- The message of the process is for this command and generation only.
  have hunique : ∀ c' g', e.fields = publishFields cfg.nspace c' g' → c' = c ∧ g' = g := by
    intro c' g' hf'
    rw [hfe, hf] at hf'
    simp only [publishFields, Fields.mk.injEq, Except.ok.injEq, true_and] at hf'
    exact ⟨hf'.1.symm, hf'.2.symm⟩
  generalize hpc : proc.pc = pc at h hd
  cases h with
  | ack hr =>
    refine .of_modify (f := Entry.ack) rfl he rfl (fun _ => .inr fun c' g' hf' => ?_) .inl
    obtain ⟨rfl, rfl⟩ := hunique c' g' hf'
    have hset := (hd.handled _ (.inr rfl)).2.2 hr
    exact fun row hrow hgen => closed_of_settled _ (hset row hrow hgen)
  | deadLetter hpc' =>
    -- Only a permanent error gets here.
    have hfailed : AtGeneration s.db c g (· = .failed) := by
      rcases hpc' with ⟨reason, rfl⟩ | ⟨r, rfl, hr⟩ | ⟨reason, rfl⟩
      · exact hd.handled _ (.inr rfl)
      · exact absurd hr (hd.handled _ (.inr rfl)).2.1
      · exact absurd rfl (hd.never reason)
    refine .of_modify (f := Entry.deadLetter) rfl he rfl (fun _ => .inr fun c' g' hf' => ?_)
      (fun _ => .inr fun c' g' hf' => ?_)
    · obtain ⟨rfl, rfl⟩ := hunique c' g' hf'
      exact fun row hrow hgen => closed_of_failed _ (hfailed row hrow hgen)
    · obtain ⟨rfl, rfl⟩ := hunique c' g' hf'
      exact hfailed
  | count hr => exact .of_modify (f := Entry.countRetry) rfl he rfl .inl .inl
  | exhaust hr => exact .of_modify (f := Entry.countRetry) rfl he rfl .inl .inl
  | _ => exact .of_eq rfl

/-- Every step treats the stream so. -/
theorem StepCase.stream {cfg : Config} {s s' : State} (h : StepCase cfg s s')
    (hi : DispatchInv cfg s) (hd : DeliveryInv cfg s) : StreamStep cfg s s' := by
  cases h with
  | quiet hs => exact .of_eq (by rw [hs])
  | advanced hs => exact .of_eq (by rw [hs])
  | claimed hnew hs => exact .of_eq (by rw [hs])
  | finished hb hs => exact .of_eq (by rw [hs])
  | publisherDied hs => exact .of_eq (by rw [hs])
  | delivered hp he hs => exact .of_eq (by rw [hs])
  | died hp hs => exact .of_eq (by rw [hs, State.die_stream])
  | resolved hfree hr hs => exact .of_eq (by rw [hs])
  | moved hp hm =>
    obtain ⟨c, g, hf, -⟩ := hi.proc _ _ hp
    obtain ⟨⟨e, he, hfe⟩, hdec⟩ := hd.proc _ _ hp
    exact hm.stream he hfe hf (hdec c g hf)
  | added hb hr hreply hs =>
    rename_i token rows row r added reply
    subst hs
    cases added with
    | false => exact .of_eq rfl
    | true =>
      refine ⟨fun i e he => ⟨e, ?_, rfl, .inl, .inl⟩, fun i e' he' hnone => ?_⟩
      · change (s.stream ++ _)[i]? = some e
        rw [List.getElem?_append_left (List.getElem?_eq_some_iff.mp he).1, he]
      · change (s.stream ++ _)[i]? = some e' at he'
        rcases List.mem_append.mp (List.mem_of_getElem? he') with hold | hnew
        · rw [List.getElem?_append_right (List.getElem?_eq_none_iff.mp hnone)] at he'
          rw [List.mem_singleton.mp (List.mem_of_getElem? he')]
          exact ⟨rfl, rfl⟩
        · rw [List.mem_singleton.mp hnew]
          exact ⟨rfl, rfl⟩

/-- A message stays on the stream while its generation is open. -/
theorem StreamStep.onStream {cfg : Config} {s s' : State} (h : StreamStep cfg s s') {c : Uuid}
    {row : CommandRow} (hc : s.db.commands.get c = some row) (hopen : ¬ row.state.closed)
    (hon : OnStream cfg s c row.generation) : OnStream cfg s' c row.generation := by
  obtain ⟨i, e, he, hf, hack⟩ := hon
  obtain ⟨e', he', hf', hacked, -⟩ := h.kept i e he
  refine ⟨i, e', he', hf'.trans hf, ?_⟩
  by_contra hne
  rcases hacked (by simpa using hne) with hold | hclosed
  · rw [hack] at hold
    cases hold
  · exact hopen (hclosed c row.generation hf row hc rfl)

/-! ## What a step does to commands and outbox -/

/-- The outbox after `set_state`: a state that ends the command also ends its claim. -/
theorem setState_outbox {db : Db} {c k : Uuid} {w : StateWrite} {o' : OutboxRow}
    (h : (setState db c w.state w.error w.failedAttempt).outbox.get k = some o') :
    ∃ o, db.outbox.get k = some o ∧ o'.generation = o.generation ∧
      (o' = o ∨ (k = c ∧ o'.claimToken = none ∧ w.state.closed)) := by
  dsimp only [setState] at h
  split at h
  · rename_i hw
    rw [Table.get_modifyAt] at h
    split at h
    · rename_i hk
      obtain ⟨o, ho, rfl⟩ := Option.map_eq_some_iff.mp h
      refine ⟨o, ho, rfl, .inr ⟨hk, rfl, ?_⟩⟩
      rcases hw with hw | hw | hw <;> rw [hw] <;> exact ⟨by simp, by simp⟩
    · exact ⟨o', h, rfl, .inl rfl⟩
  · exact ⟨o', h, rfl, .inl rfl⟩

/-- `set_state` leaves the outbox rows of other commands alone. -/
theorem setState_outbox_other (db : Db) {c k : Uuid} (w : StateWrite) (hk : k ≠ c) :
    (setState db c w.state w.error w.failedAttempt).outbox.get k = db.outbox.get k := by
  dsimp only [setState]
  split
  · rw [Table.get_modifyAt, if_neg hk]
  · rfl

/-- The ways a step touches commands and outbox. -/
inductive TableCase (cfg : Config) (s s' : State) : Prop
  /-- It does not, and neither do claims come or go. -/
  | same (hc : ∀ c, s'.db.commands.get c = s.db.commands.get c)
      (ho : ∀ c, s'.db.outbox.get c = s.db.outbox.get c)
  | advanced {x : Uuid} (ha : Advanced x (s.db.lastOf x) s.db s'.db)
      (hout : ∀ c o, s'.db.outbox.get c = some o → s.db.outbox.get c = none →
        s.db.commands.get c = none ∧ (s'.db.commands.get c).isSome)
  | claimed {now : Time} {locked : List Uuid} {limit lease : ℕ} {token : Uuid}
      (hnew : token ∉ s.tokens) (ht : token ∈ s'.tokens)
      (hdb : s'.db = (claimOutbox s.db now locked limit lease token).1)
  | finished {token : Uuid} {rows : List BatchRow} {sent : Bool} (hb : s.batches token = some rows)
      (hdb : s'.db = finishPublications s.db token
        (repliedIds rows (if sent then .sent else .failed)) sent)
  /-- A process writes a state for the command of its message. -/
  | wrote {p : ℕ} {proc : Proc} {c : Uuid} {g : ℕ} {w : StateWrite} {row : CommandRow}
      (hp : s.procs p = some proc) (hf : proc.fields = publishFields cfg.nspace c g)
      (hdb : s'.db = setState s.db c w.state w.error w.failedAttempt)
      (hc : s.db.commands.get c = some row) (hg : row.generation = g)
      (hst : row.state = .ready ∨ row.state = .running) (hw : w.state ≠ .ready)
  | resolved {c : Uuid} {retry : Bool} {actor reason : String}
      (hr : resolveFailed s.db c retry actor reason = .ok s'.db)

/-- Every step is one of these. -/
theorem StepCase.tables {cfg : Config} {s s' : State} (h : StepCase cfg s s')
    (hi : DispatchInv cfg s) : TableCase cfg s s' := by
  cases h with
  | quiet hs hc ho hk =>
    subst hs
    exact .same (fun c => by rw [hc]) fun c => by rw [ho]
  | advanced hs ha hk hout =>
    subst hs
    exact .advanced ha hout
  | claimed hnew hs =>
    subst hs
    exact .claimed hnew (List.mem_cons_self ..) rfl
  | added hb hr hreply hs =>
    subst hs
    exact .same (fun _ => rfl) fun _ => rfl
  | finished hb hs =>
    subst hs
    exact .finished hb rfl
  | publisherDied hs =>
    subst hs
    exact .same (fun _ => rfl) fun _ => rfl
  | delivered hp he hs =>
    subst hs
    exact .same (fun _ => rfl) fun _ => rfl
  | moved hp hm =>
    obtain ⟨c, g, hf, -, hpc⟩ := hi.proc _ _ hp
    rcases hm.write_cases hpc with hdb | ⟨t, w, row, -, -, hdb, hc, hg, hst, hw⟩
    · exact .same (fun _ => by rw [hdb]) fun _ => by rw [hdb]
    · exact .wrote hp hf hdb hc hg hst hw
  | died hp hs =>
    subst hs
    exact .same (fun _ => by rw [State.die_db]) fun _ => by rw [State.die_db]
  | resolved hfree hr hs =>
    subst hs
    exact .resolved hr

/-- Claim tokens are not forgotten. -/
theorem StepCase.tokens {cfg : Config} {s s' : State} (h : StepCase cfg s s') {t : Uuid}
    (ht : t ∈ s.tokens) : t ∈ s'.tokens := by
  cases h with
  | quiet hs => rw [hs]; exact ht
  | advanced hs => rw [hs]; exact ht
  | claimed hnew hs => rw [hs]; exact List.mem_cons_of_mem _ ht
  | added hb hr hreply hs => rw [hs]; exact ht
  | finished hb hs => rw [hs]; exact ht
  | publisherDied hs => rw [hs]; exact ht
  | delivered hp he hs => rw [hs]; exact ht
  | moved hp hm => rw [hm.frame.tokens]; exact ht
  | died hp hs =>
    rw [hs]
    unfold State.die
    split <;> exact ht
  | resolved hfree hr hs => rw [hs]; exact ht

/-- What becomes of the claim on an outbox row: a claim that is there afterwards was there before,
on the same generation, or is new. -/
theorem TableCase.claim {cfg : Config} {s s' : State} (h : TableCase cfg s s') {c t : Uuid}
    {o' : OutboxRow} (ho' : s'.db.outbox.get c = some o') (ht : o'.claimToken = some t) :
    ∃ o, s.db.outbox.get c = some o ∧ o'.generation = o.generation ∧
      (o.claimToken = some t ∨ (t ∉ s.tokens ∧ t ∈ s'.tokens)) := by
  cases h with
  | same hc ho => exact ⟨o', by rw [← ho, ho'], rfl, .inl ht⟩
  | advanced ha hout =>
    cases ho : s.db.outbox.get c with
    | some o =>
      have hold := ha.outbox c o ho
      rw [hold] at ho'
      obtain rfl := Option.some.inj ho'
      exact ⟨o, rfl, rfl, .inl ht⟩
    | none =>
      -- A new row carries no claim.
      obtain ⟨hnone, hsome⟩ := hout c o' ho' ho
      obtain ⟨row, hrow⟩ := Option.isSome_iff_exists.mp hsome
      obtain ⟨-, -, -, -, now, hnew⟩ := ha.fresh c row hrow hnone
      rw [ho'] at hnew
      obtain rfl := Option.some.inj hnew
      cases ht
  | claimed hnew htok hdb =>
    rw [hdb] at ho'
    obtain ⟨o, ho, ⟨-, rfl⟩ | ⟨-, rfl⟩⟩ := claimOutbox_outbox ho'
    · obtain rfl := Option.some.inj ht
      exact ⟨o, ho, rfl, .inr ⟨hnew, htok⟩⟩
    · exact ⟨o', ho, rfl, .inl ht⟩
  | finished hb hdb =>
    rw [hdb] at ho'
    obtain ⟨o, ho, ⟨-, -, rfl⟩ | ⟨-, rfl⟩⟩ := finishPublications_outbox ho'
    · cases ht
    · exact ⟨o', ho, rfl, .inl ht⟩
  | wrote hp hf hdb =>
    rw [hdb] at ho'
    obtain ⟨o, ho, hg, rfl | ⟨-, hnone, -⟩⟩ := setState_outbox ho'
    · exact ⟨o', ho, rfl, .inl ht⟩
    · rw [hnone] at ht
      cases ht
  | resolved hr =>
    obtain ⟨row, -, -, -, -, houts⟩ := resolveFailed_spec hr
    rw [houts] at ho'
    split at ho'
    · obtain ⟨o, -, rfl⟩ := Option.map_eq_some_iff.mp ho'
      cases ht
    · exact ⟨o', ho', rfl, .inl ht⟩

/-- Outbox and command keep agreeing on the generation. -/
theorem TableCase.generation {cfg : Config} {s s' : State} (h : TableCase cfg s s')
    (hd : DeliveryInv cfg s) {c : Uuid} {row' : CommandRow} {o' : OutboxRow}
    (hc' : s'.db.commands.get c = some row') (ho' : s'.db.outbox.get c = some o')
    (hst' : row'.state ≠ .ignored) : o'.generation = row'.generation := by
  cases h with
  | same hc ho =>
    rw [hc] at hc'
    rw [ho] at ho'
    exact hd.generation c row' o' hc' ho' hst'
  | advanced ha hout =>
    -- A routed command is new with its outbox row, or both were there.
    cases hc : s.db.commands.get c with
    | none =>
      obtain ⟨-, hg, -, -, now, hnew⟩ := ha.fresh c row' hc' hc
      rw [ho'] at hnew
      obtain rfl := Option.some.inj hnew
      exact hg.symm
    | some row =>
      have hrow := ha.commands c row hc
      rw [hc'] at hrow
      obtain rfl := Option.some.inj hrow
      cases ho : s.db.outbox.get c with
      | none =>
        have := (hout c o' ho' ho).1
        rw [hc] at this
        cases this
      | some o =>
        have hold := ha.outbox c o ho
        rw [ho'] at hold
        obtain rfl := Option.some.inj hold
        exact hd.generation c row' o' hc ho hst'
  | claimed hnew htok hdb =>
    rw [hdb] at hc' ho'
    -- A claim changes the lease of an outbox row only.
    obtain ⟨o, ho, ⟨-, rfl⟩ | ⟨-, rfl⟩⟩ := claimOutbox_outbox ho'
    · exact hd.generation c row' o hc' ho hst'
    · exact hd.generation c row' o' hc' ho hst'
  | finished hb hdb =>
    rw [hdb] at hc' ho'
    -- So does the end of a publication.
    obtain ⟨o, ho, ⟨-, -, rfl⟩ | ⟨-, rfl⟩⟩ := finishPublications_outbox ho'
    · exact hd.generation c row' o hc' ho hst'
    · exact hd.generation c row' o' hc' ho hst'
  | wrote hp hf hdb hc hg hst hw =>
    rename_i p proc k g w row
    -- A write of a state leaves the generation.
    rw [hdb] at hc' ho'
    obtain ⟨o, ho, hog, -⟩ := setState_outbox ho'
    rw [setState_commands] at hc'
    split at hc'
    · rename_i hk
      subst hk
      rw [hc, Option.map_some] at hc'
      obtain rfl := Option.some.inj hc'
      have hne : row.state ≠ .ignored := by
        rcases hst with hst | hst <;> rw [hst] <;> simp
      rw [hog]
      exact hd.generation c row o hc ho hne
    · rw [hog]
      exact hd.generation c row' o hc' ho hst'
  | resolved hr =>
    rename_i k retry actor reason
    obtain ⟨row, hc, hfailed, -, hrows, houts⟩ := resolveFailed_spec hr
    rw [hrows] at hc'
    rw [houts] at ho'
    -- A retry raises both generations; a rejection leaves the command ignored.
    split at hc'
    · rename_i hk
      obtain rfl := Option.some.inj hc'
      cases retry with
      | true =>
        rw [if_pos ⟨rfl, hk⟩] at ho'
        obtain ⟨o, -, rfl⟩ := Option.map_eq_some_iff.mp ho'
        rfl
      | false => exact absurd rfl hst'
    · rename_i hk
      rw [if_neg fun h => hk h.2] at ho'
      exact hd.generation c row' o' hc' ho' hst'

/-- A `READY` command is neither running nor closed. -/
theorem not_closed_of_ready {st : CommandState} (h : st = .ready) : ¬ st.closed :=
  fun hc => hc.1 h

/-- A `RUNNING` command is not closed. -/
theorem not_closed_of_running {st : CommandState} (h : st = .running) : ¬ st.closed :=
  fun hc => hc.2 h

/-- A `READY` command stays on its way. -/
theorem TableCase.ready {cfg : Config} {s s' : State} (h : TableCase cfg s s')
    (hrouted : Routed s.db s.db.lastOf) (hstream : StreamStep cfg s s') (hd : DeliveryInv cfg s)
    {c : Uuid} {row' : CommandRow}
    (hc' : s'.db.commands.get c = some row') (hready : row'.state = .ready) :
    ∃ o, s'.db.outbox.get c = some o ∧
      (o.state = .pending ∨ o.state = .claimed ∨ OnStream cfg s' c row'.generation) := by
  -- A command that was `READY` before, with an outbox row that did not change.
  have hkeep : s.db.commands.get c = some row' → s'.db.outbox.get c = s.db.outbox.get c →
      ∃ o, s'.db.outbox.get c = some o ∧
        (o.state = .pending ∨ o.state = .claimed ∨ OnStream cfg s' c row'.generation) := by
    intro hc ho
    obtain ⟨o, hout, hway⟩ := hd.ready c row' hc hready
    refine ⟨o, by rw [ho, hout], hway.imp_right fun h => h.imp_right fun hon => ?_⟩
    exact hstream.onStream hc (not_closed_of_ready hready) hon
  cases h with
  | same hc ho =>
    rw [hc] at hc'
    exact hkeep hc' (ho c)
  | advanced ha hout =>
    cases hc : s.db.commands.get c with
    | none =>
      obtain ⟨-, -, -, -, now, hnew⟩ := ha.fresh c row' hc' hc
      exact ⟨_, hnew, .inl rfl⟩
    | some row =>
      have hrow := ha.commands c row hc
      rw [hc'] at hrow
      obtain rfl := Option.some.inj hrow
      obtain ⟨o, ho, -⟩ := hd.ready c row' hc hready
      exact hkeep hc (by rw [ho, ha.outbox c o ho])
  | claimed hnew htok hdb =>
    rw [hdb] at hc'
    obtain ⟨o, ho, hway⟩ := hd.ready c row' hc' hready
    obtain ⟨o', ho'⟩ : ∃ o', s'.db.outbox.get c = some o' := by
      rw [hdb]
      dsimp only [claimOutbox]
      rw [Table.get_modify, ho]
      exact ⟨_, rfl⟩
    have hcase := ho'
    rw [hdb] at hcase
    obtain ⟨o₀, ho₀, ⟨-, rfl⟩ | ⟨-, rfl⟩⟩ := claimOutbox_outbox hcase
    · exact ⟨_, ho', .inr (.inl rfl)⟩
    · exact hkeep hc' (by rw [ho', ho₀])
  | finished hb hdb =>
    rename_i token rows sent
    rw [hdb] at hc'
    obtain ⟨o, ho, hway⟩ := hd.ready c row' hc' hready
    obtain ⟨o', ho'⟩ : ∃ o', s'.db.outbox.get c = some o' := by
      rw [hdb]
      dsimp only [finishPublications]
      rw [Table.get_modify, ho]
      exact ⟨_, rfl⟩
    have hcase := ho'
    rw [hdb] at hcase
    obtain ⟨o₀, ho₀, ⟨htoken, hmem, rfl⟩ | ⟨-, rfl⟩⟩ := finishPublications_outbox hcase
    · cases sent with
      | false => exact ⟨_, ho', .inl rfl⟩
      | true =>
        -- The claim is still the batch's, so the entry it added is in the current generation.
        obtain ⟨r, hr, rfl⟩ := List.mem_map.mp hmem
        obtain ⟨hrows, hsent⟩ := List.mem_filter.mp hr
        obtain ⟨i, e, he, hf⟩ := hd.batchSent token rows hb r hrows (by simpa using hsent)
        have hgen : r.generation = row'.generation := by
          rw [← hd.batchGeneration token rows hb r hrows o₀ ho₀ htoken]
          exact hd.generation _ row' o₀ hc' ho₀ (by rw [hready]; nofun)
        rw [hgen] at hf
        have hopen := not_closed_of_ready hready
        have hacked : e.acked = false := by
          by_contra hne
          exact hopen (hd.acked i e he (by simpa using hne) _ _ hf row' hc' rfl)
        exact ⟨_, ho', .inr (.inr (hstream.onStream hc' hopen ⟨i, e, he, hf, hacked⟩))⟩
    · exact hkeep hc' (by rw [ho', ho₀])
  | wrote hp hf hdb hc hg hst hw =>
    rw [hdb, setState_commands] at hc'
    split at hc'
    · -- A process never writes `READY`.
      obtain ⟨row, -, rfl⟩ := Option.map_eq_some_iff.mp hc'
      exact absurd hready hw
    · rename_i hk
      exact hkeep hc' (by rw [hdb, setState_outbox_other _ _ hk])
  | resolved hr =>
    rename_i k retry actor reason
    obtain ⟨row, hc, hfailed, -, hrows, houts⟩ := resolveFailed_spec hr
    rw [hrows] at hc'
    split at hc'
    · rename_i hk
      obtain rfl := Option.some.inj hc'
      cases retry with
      | false => cases hready
      | true =>
        subst hk
        obtain ⟨o, ho⟩ := Option.isSome_iff_exists.mp
          ((hrouted.outbox_iff c).mpr (by rw [hc]; rfl))
        have hout := houts c
        rw [if_pos ⟨rfl, rfl⟩, ho, Option.map_some] at hout
        exact ⟨_, hout, .inl rfl⟩
    · rename_i hk
      exact hkeep hc' (by rw [houts, if_neg fun h => hk h.2])

/-- A `RUNNING` command keeps its message. -/
theorem TableCase.running {cfg : Config} {s s' : State} (h : TableCase cfg s s')
    (hstream : StreamStep cfg s s') (hd : DeliveryInv cfg s) {c : Uuid} {row' : CommandRow}
    (hc' : s'.db.commands.get c = some row') (hrunning : row'.state = .running) :
    OnStream cfg s' c row'.generation := by
  have hkeep : s.db.commands.get c = some row' → OnStream cfg s' c row'.generation := by
    -- Where the row is as it was, so is its message.
    intro hc
    exact hstream.onStream hc (not_closed_of_running hrunning) (hd.running c row' hc hrunning)
  cases h with
  | same hc ho =>
    rw [hc] at hc'
    exact hkeep hc'
  | advanced ha hout =>
    cases hc : s.db.commands.get c with
    | none =>
      -- A new command is READY.
      obtain ⟨hst, -⟩ := ha.fresh c row' hc' hc
      rw [hst] at hrunning
      cases hrunning
    | some row =>
      have hrow := ha.commands c row hc
      rw [hc'] at hrow
      obtain rfl := Option.some.inj hrow
      exact hkeep hc
  | claimed hnew htok hdb =>
    rw [hdb] at hc'
    exact hkeep hc'
  | finished hb hdb =>
    rw [hdb] at hc'
    exact hkeep hc'
  | wrote hp hf hdb hc hg hst hw =>
    rename_i p proc k g w row
    rw [hdb, setState_commands] at hc'
    split at hc'
    · -- The process's own message is in the command's generation, and open.
      rename_i hk
      subst hk
      rw [hc, Option.map_some] at hc'
      obtain rfl := Option.some.inj hc'
      obtain ⟨⟨e, he, hfe⟩, -⟩ := hd.proc p proc hp
      rw [hf, ← hg] at hfe
      have hopen : ¬ row.state.closed :=
        hst.elim not_closed_of_ready not_closed_of_running
      have hacked : e.acked = false := by
        by_contra hne
        exact hopen (hd.acked _ e he (by simpa using hne) _ _ hfe row hc rfl)
      change OnStream cfg s' c row.generation
      exact hstream.onStream hc hopen ⟨_, e, he, hfe, hacked⟩
    · exact hkeep hc'
  -- A resolution leaves no command RUNNING.
  | resolved hr =>
    obtain ⟨row, hc, hfailed, -, hrows, -⟩ := resolveFailed_spec hr
    rw [hrows] at hc'
    split at hc'
    · obtain rfl := Option.some.inj hc'
      rename_i retry _ _ _
      cases retry <;> cases hrunning
    · exact hkeep hc'

/-! ## Steps keep the invariant -/

/-- The execution of a command is bound. -/
theorem Routed.bound {db : Db} (hr : Routed db db.lastOf) {c : Uuid} {row : CommandRow}
    (hc : db.commands.get c = some row) : (db.bindings.get row.executionId).isSome := by
  have hle := hr.sequence_le hc
  obtain ⟨r, he, -, -, hseq⟩ := hr.command_event c row hc
  have hpos := r.event.eventSequence_pos
  rw [(hr.identity _ _ he).2.2, hseq] at hpos
  by_contra hnone
  have hzero : db.lastOf row.executionId = 0 := by
    rw [Db.lastOf, Option.not_isSome_iff_eq_none.mp hnone]
    rfl
  omega

/-- The decision of a process stays true while it stands where it is. -/
theorem DecisionInv.frame {db db' : Db} {c : Uuid} {g : ℕ} {pc : Pc} (h : DecisionInv db c g pc)
    (hev : Evolves db db') (hi : Issued db c g) : DecisionInv db' c g pc :=
  ⟨fun hd hpc => hev.handledInv hi (h.handled hd hpc), h.agrees, h.never⟩

/-- Whether a process has neither decided nor is about to write its decision. -/
def Pc.undecided : Pc → Bool
  | .received | .located _ | .holding _ | .accepted _ _ | .started _ _ | .invoked _ _ => true
  | .ended _ _ _ | .leaving _ _ | .finished _ | .exhausted _ => false

/-- A point at which nothing is decided yet. -/
theorem DecisionInv.of_undecided {db : Db} {c : Uuid} {g : ℕ} {pc : Pc} (h : pc.undecided = true) :
    DecisionInv db c g pc where
  handled := by
    rintro hd (⟨t, rfl⟩ | rfl)
    · cases h
    · cases h
  agrees := by
    rintro t w hd rfl
    cases h
  never := by
    rintro reason rfl
    cases h

/-- A decision that holds. -/
theorem DecisionInv.of_handled {db : Db} {c : Uuid} {g : ℕ} {pc : Pc} {hd : Handled}
    (hpc : (∃ t, pc = .leaving t hd) ∨ pc = .finished hd) (h : HandledInv db c g hd) :
    DecisionInv db c g pc where
  handled := by
    intro hd' hpc'
    rcases hpc with ⟨t, rfl⟩ | rfl
    · rcases hpc' with ⟨t', heq⟩ | heq
      · cases heq
        exact h
      · cases heq
    · rcases hpc' with ⟨t', heq⟩ | heq
      · cases heq
      · cases heq
        exact h
  agrees := by
    rintro t w hd' rfl
    rcases hpc with ⟨t, heq⟩ | heq <;> cases heq
  never := by
    rintro reason rfl
    rcases hpc with ⟨t, heq⟩ | heq <;> cases heq

/-- A move keeps the decision of its own process. -/
theorem Move.decision {cfg : Config} {s s' : State} {p : ℕ} {proc proc' : Proc} {c : Uuid} {g : ℕ}
    {row : CommandRow} (h : Move cfg s p proc proc.pc s') (hr : Routed s.db s.db.lastOf)
    (hrow : s.db.commands.get c = some row) (hf : proc.fields = publishFields cfg.nspace c g)
    (hp : PcInv s p c g proc.pc) (hd : DecisionInv s.db c g proc.pc)
    (hp' : s'.procs p = some proc') :
    proc'.entry = proc.entry ∧ DecisionInv s'.db c g proc'.pc := by
  have hgoto : ∀ {t : State} {pc : Pc}, (t.goto p proc pc).procs p = some proc' →
      proc' = { proc with pc := pc } := by
    intro t pc ht
    rw [State.goto_procs, Function.update_self] at ht
    exact (Option.some.inj ht).symm
  have hdrop : ∀ {t : State}, (t.drop p).procs p = some proc' → False := by
    intro t ht
    rw [State.drop_procs, Function.update_self] at ht
    cases ht
  -- The join finds the command: its event and its binding exist.
  have hfound : ∃ view, command s.db c = some view := by
    obtain ⟨i, hi, -⟩ := hr.command_event c row hrow
    obtain ⟨b, hb⟩ := Option.isSome_iff_exists.mp (hr.bound hrow)
    exact ⟨_, by rw [command, hrow, Option.bind_some, hi, Option.bind_some, hb, Option.map_some]⟩
  generalize hpc : proc.pc = pc at h hp hd
  cases h with
  | unreadable hdec =>
    rw [hf, decodeEnvelope_publishFields] at hdec
    cases hdec
  | unknown hdec hnone =>
    rw [hf, decodeEnvelope_publishFields] at hdec
    obtain ⟨rfl, rfl⟩ : c = _ ∧ g = _ := by simpa using Except.ok.inj hdec
    obtain ⟨view, hview⟩ := hfound
    rw [hview] at hnone
    cases hnone
  | locate => rw [hgoto hp']; exact ⟨rfl, .of_undecided rfl⟩
  | acquire => rw [hgoto hp']; exact ⟨rfl, .of_undecided rfl⟩
  | giveUp => rw [hgoto hp']; exact ⟨rfl, .of_handled (.inr rfl) (handledInv_deferred ..)⟩
  | stop hdis =>
    rw [hgoto hp']
    have hn := hp.names _ rfl
    obtain ⟨view, hview⟩ := hfound
    rw [hn.commandId, hn.generation, hview] at hdis
    exact ⟨rfl, .of_handled (.inl ⟨_, rfl⟩) (dispatchCheck_finish hview hdis)⟩
  | accept => rw [hgoto hp']; exact ⟨rfl, .of_undecided rfl⟩
  | start => rw [hgoto hp']; exact ⟨rfl, .of_undecided rfl⟩
  | startLost => rw [hgoto hp']; exact ⟨rfl, .of_handled (.inl ⟨_, rfl⟩) (handledInv_deferred ..)⟩
  | invoke => rw [hgoto hp']; exact ⟨rfl, .of_undecided rfl⟩
  | judge ha =>
    rw [hgoto hp']
    refine ⟨rfl, ?_, ?_, by rintro _ ⟨⟩⟩
    · rintro hd' (⟨t, heq⟩ | heq) <;> cases heq
    · rintro t w hd' heq
      cases heq
      exact afterHandler_agrees ha
  | settle =>
    rename_i t w hd'
    rw [hgoto hp']
    refine ⟨rfl, .of_handled (.inl ⟨_, rfl⟩) ?_⟩
    have hn := hp.names t rfl
    rw [State.goto_db, State.write_db, hn.commandId]
    exact (hd.agrees t w hd' rfl).handledInv
  | settleLost =>
    rw [hgoto hp']
    exact ⟨rfl, .of_handled (.inl ⟨_, rfl⟩) (handledInv_deferred ..)⟩
  | abandon => rw [hgoto hp']; exact ⟨rfl, .of_handled (.inl ⟨_, rfl⟩) (handledInv_deferred ..)⟩
  | leave hh =>
    rw [hgoto hp']
    refine ⟨rfl, .of_handled (.inr rfl) ?_⟩
    rcases hh with rfl | rfl
    · exact hd.handled _ (.inl ⟨_, rfl⟩)
    · exact handledInv_deferred ..
  | ack => exact (hdrop hp').elim
  | deadLetter => exact (hdrop hp').elim
  | count => exact (hdrop hp').elim
  | exhaust hretry =>
    -- The dispatcher never asks for a retry.
    have hh := hd.handled _ (.inr rfl)
    rcases hretry with ⟨reason, rfl⟩ | ⟨r, rfl, hdec⟩
    · exact hh.elim
    · exact absurd hdec hh.1
  | keep => exact (hdrop hp').elim

/-- An entry keeps its fields. -/
theorem StreamStep.entry {cfg : Config} {s s' : State} (h : StreamStep cfg s s') {i : ℕ}
    {fields : Fields} (he : ∃ e : Entry, s.stream[i]? = some e ∧ e.fields = fields) :
    ∃ e : Entry, s'.stream[i]? = some e ∧ e.fields = fields := by
  obtain ⟨e, he, hf⟩ := he
  obtain ⟨e', he', hf', -⟩ := h.kept i e he
  exact ⟨e', he', hf'.trans hf⟩

/-- Every step keeps what holds of the processes' decisions. -/
theorem StepCase.decisions {cfg : Config} {s s' : State} (h : StepCase cfg s s')
    (hr : Routed s.db s.db.lastOf) (hi : DispatchInv cfg s) (hd : DeliveryInv cfg s) (q : ℕ)
    (proc' : Proc) (hq : s'.procs q = some proc') :
    (∃ e : Entry, s'.stream[proc'.entry]? = some e ∧ e.fields = proc'.fields) ∧
      ∀ c g, proc'.fields = publishFields cfg.nspace c g → DecisionInv s'.db c g proc'.pc := by
  have hev := h.evolves hi
  have hstream := h.stream hi hd
  -- A process that stands where it stood.
  have hkeep : s.procs q = some proc' →
      (∃ e : Entry, s'.stream[proc'.entry]? = some e ∧ e.fields = proc'.fields) ∧
        ∀ c g, proc'.fields = publishFields cfg.nspace c g → DecisionInv s'.db c g proc'.pc := by
    intro hq₀
    obtain ⟨he, hdec⟩ := hd.proc q proc' hq₀
    refine ⟨hstream.entry he, fun c g hf => (hdec c g hf).frame hev ?_⟩
    obtain ⟨c₀, g₀, hf₀, hiss, -⟩ := hi.proc q proc' hq₀
    rw [hf₀] at hf
    simp only [publishFields, Fields.mk.injEq, Except.ok.injEq, true_and] at hf
    obtain ⟨rfl, rfl⟩ := hf
    exact hiss
  cases h with
  | quiet hs => subst hs; exact hkeep hq
  | advanced hs => subst hs; exact hkeep hq
  | claimed hnew hs => subst hs; exact hkeep hq
  | added hb hr' hreply hs => subst hs; exact hkeep hq
  | finished hb hs => subst hs; exact hkeep hq
  | publisherDied hs => subst hs; exact hkeep hq
  | resolved hfree hres hs => subst hs; exact hkeep hq
  | delivered hp he hs =>
    rename_i p i e handlers maxAttempts
    subst hs
    by_cases hqp : q = p
    · subst hqp
      dsimp only at hq
      rw [Function.update_self] at hq
      obtain rfl := Option.some.inj hq
      exact ⟨⟨e, he, rfl⟩, fun c g _ => .of_undecided rfl⟩
    · dsimp only at hq
      rw [Function.update_of_ne hqp] at hq
      exact hkeep hq
  | moved hp hm =>
    rename_i p proc
    by_cases hqp : q = p
    · subst hqp
      obtain ⟨c, g, hf, ⟨row, hrow, -⟩, hpc⟩ := hi.proc q proc hp
      obtain ⟨he, hdec⟩ := hd.proc q proc hp
      obtain ⟨hentry, hdec'⟩ := hm.decision hr hrow hf hpc (hdec c g hf) hq
      have hf' := (hm.self hf hpc hq).1
      refine ⟨by rw [hentry, hf']; exact hstream.entry he, fun c' g' hf'' => ?_⟩
      rw [hf', hf] at hf''
      simp only [publishFields, Fields.mk.injEq, Except.ok.injEq, true_and] at hf''
      obtain ⟨rfl, rfl⟩ := hf''
      exact hdec'
    · rw [hm.frame.others q hqp] at hq
      exact hkeep hq
  | died hp hs =>
    rename_i p proc
    subst hs
    by_cases hqp : q = p
    · subst hqp
      unfold State.die at hq
      split at hq <;> rw [State.drop_procs, Function.update_self] at hq <;> cases hq
    · unfold State.die at hq
      split at hq <;> rw [State.drop_procs, Function.update_of_ne hqp] at hq <;> exact hkeep hq

/-- Every batch after a step is one from before, up to a reply that reports an added entry, or is
the batch of a new claim. -/
theorem StepCase.batch {cfg : Config} {s s' : State} (h : StepCase cfg s s') {t : Uuid}
    {rows' : List BatchRow} (hb' : s'.batches t = some rows') {r' : BatchRow} (hr' : r' ∈ rows') :
    (∃ rows r, s.batches t = some rows ∧ r ∈ rows ∧ r'.commandId = r.commandId ∧
      r'.generation = r.generation ∧ (r'.result = .sent → r.result = .sent ∨
        ∃ (i : ℕ) (e : Entry), s'.stream[i]? = some e ∧
          e.fields = publishFields cfg.nspace r'.commandId r'.generation)) ∨
    (t ∉ s.tokens ∧ t ∈ s'.tokens ∧ r'.result = .unknown ∧
      ∃ o, s.db.outbox.get r'.commandId = some o ∧ o.generation = r'.generation) := by
  -- A batch that is not touched is one from before.
  have hkeep : s.batches t = some rows' →
      ∃ rows r, s.batches t = some rows ∧ r ∈ rows ∧ r'.commandId = r.commandId ∧
        r'.generation = r.generation ∧ (r'.result = .sent → r.result = .sent ∨
          ∃ (i : ℕ) (e : Entry), s'.stream[i]? = some e ∧
            e.fields = publishFields cfg.nspace r'.commandId r'.generation) :=
    fun hb => ⟨rows', r', hb, hr', rfl, rfl, .inl⟩
  cases h with
  | quiet hs => subst hs; exact .inl (hkeep hb')
  | advanced hs => subst hs; exact .inl (hkeep hb')
  | finished hb hs => subst hs; exact .inl (hkeep hb')
  | delivered hp he hs => subst hs; exact .inl (hkeep hb')
  | resolved hfree hres hs => subst hs; exact .inl (hkeep hb')
  | moved hp hm =>
    rw [hm.frame.batches] at hb'
    exact .inl (hkeep hb')
  | died hp hs =>
    subst hs
    rw [State.die_batches] at hb'
    exact .inl (hkeep hb')
  | claimed hnew hs =>
    rename_i now locked limit lease token
    subst hs
    -- The claimed batch is new, and its rows are those of the outbox.
    by_cases ht : t = token
    · subst ht
      dsimp only at hb'
      rw [Function.update_self] at hb'
      obtain rfl := Option.some.inj hb'
      obtain ⟨⟨c, g⟩, hcg, rfl⟩ := List.mem_map.mp hr'
      exact .inr ⟨hnew, List.mem_cons_self .., rfl, (mem_claimOutbox hcg).2⟩
    · dsimp only at hb'
      rw [Function.update_of_ne ht] at hb'
      exact .inl (hkeep hb')
  | publisherDied hs =>
    rename_i token
    subst hs
    by_cases ht : t = token
    · subst ht
      dsimp only at hb'
      rw [Function.update_self] at hb'
      cases hb'
    · dsimp only at hb'
      rw [Function.update_of_ne ht] at hb'
      exact .inl (hkeep hb')
  | added hb hrow hreply hs =>
    rename_i token rows row r added reply
    subst hs
    by_cases ht : t = token
    · subst ht
      dsimp only at hb'
      rw [Function.update_self] at hb'
      obtain rfl := Option.some.inj hb'
      obtain ⟨r₀, hmem, hid, hgen, hcase⟩ := mem_setReply hr'
      -- Only the row of this reply may have changed.
      refine .inl ⟨rows, r₀, hb, hmem, hid, hgen, fun hsent => ?_⟩
      rcases hcase with rfl | ⟨hi, hres⟩
      · exact .inl hsent
      · -- The reply reports success, so the entry is the last of the stream.
        rw [hrow] at hi
        obtain rfl := Option.some.inj hi
        have hadded := hreply (hres.symm.trans hsent)
        refine .inr ⟨s.stream.length,
          ⟨publishFields cfg.nspace r.commandId r.generation, false, false, 0⟩, ?_, ?_⟩
        · dsimp only
          rw [if_pos hadded]
          exact List.getElem?_concat_length
        · rw [hid, hgen]
    · dsimp only at hb'
      rw [Function.update_of_ne ht] at hb'
      exact .inl (hkeep hb')

/-- Every step keeps the delivery invariant. -/
theorem DeliveryInv.step {cfg : Config} {s s' : State} (hd : DeliveryInv cfg s)
    (hr : Routed s.db s.db.lastOf) (hi : DispatchInv cfg s) (h : StepCase cfg s s') :
    DeliveryInv cfg s' := by
  have hev := h.evolves hi
  have hstream := h.stream hi hd
  have htables := h.tables hi
  refine ⟨?_, ?_, ?_, ?_, ?_, ?_, ?_, ?_, h.decisions hr hi hd⟩
  · -- A claim that is held: an old token was issued before, a new one just now.
    intro c o' t ho' ht
    obtain ⟨o, ho, -, hold | ⟨-, hnew⟩⟩ := htables.claim ho' ht
    · exact h.tokens (hd.token c o t ho hold)
    · exact hnew
  · intro t rows' hb' r' hr'
    -- So were the tokens of the batches.
    rcases h.batch hb' hr' with ⟨rows, r, hb, hmem, -⟩ | ⟨-, hnew, -⟩
    · exact h.tokens (hd.batchToken t rows hb r hmem)
    · exact hnew
  · intro t rows' hb' r' hr' o' ho' ht
    obtain ⟨o, ho, hog, hclaim⟩ := htables.claim ho' ht
    rcases h.batch hb' hr' with ⟨rows, r, hb, hmem, hid, hgen, -⟩ | ⟨hnew, -, -, o₀, ho₀, hog₀⟩
    · -- An old batch: the claim is its own, since a new one would have a new token.
      rw [hid] at ho
      rcases hclaim with hold | ⟨hfresh, -⟩
      · rw [hog, hd.batchGeneration t rows hb r hmem o ho hold, hgen]
      · exact absurd (hd.batchToken t rows hb r hmem) hfresh
    · rw [ho] at ho₀
      obtain rfl := Option.some.inj ho₀
      rw [hog, hog₀]
  · -- A sent record of a batch has its entry on the stream, and keeps it.
    intro t rows' hb' r' hr' hsent
    rcases h.batch hb' hr' with ⟨rows, r, hb, hmem, hid, hgen, hres⟩ | ⟨-, -, hunknown, -⟩
    · rcases hres hsent with hold | hnew
      · obtain ⟨i, e, he, hf⟩ := hd.batchSent t rows hb r hmem hold
        obtain ⟨e', he', hf', -⟩ := hstream.kept i e he
        exact ⟨i, e', he', by rw [hf', hf, hid, hgen]⟩
      · exact hnew
    · rw [hunknown] at hsent
      cases hsent
  · intro c row' o' hc' ho' hst'
    exact htables.generation hd hc' ho' hst'
  · -- An entry that was acknowledged: its command's generation is closed, and stays so.
    intro i e' he' hack c g hf
    cases he : s.stream[i]? with
    | none =>
      rw [(hstream.fresh i e' he' he).1] at hack
      cases hack
    | some e =>
      obtain ⟨e'', he'', hf', hacked, -⟩ := hstream.kept i e he
      rw [he'] at he''
      obtain rfl := Option.some.inj he''
      rw [hf'] at hf
      obtain ⟨c₀, g₀, hf₀, hiss⟩ := hi.entry i e he
      have hsame := hf₀
      rw [hf] at hsame
      simp only [publishFields, Fields.mk.injEq, Except.ok.injEq, true_and] at hsame
      obtain ⟨rfl, rfl⟩ := hsame
      rcases hacked hack with hold | hclosed
      · exact hev.closed hiss (hd.acked i e he hold _ _ hf)
      · exact hev.closed hiss (hclosed _ _ hf)
  · intro c row' hc' hready
    exact htables.ready hr hstream hd hc' hready
  · intro c row' hc' hrunning
    exact htables.running hstream hd hc' hrunning

/-- The delivery invariant holds in every reachable state. -/
theorem reachable_delivery {cfg : Config} {s : State} (h : (worker cfg).Reachable s) :
    DeliveryInv cfg s := by
  refine h.invariant (fun s hs => ?_) (fun s a s' hr hd hs => ?_)
  · obtain rfl : s = .initial := hs
    have hout : ∀ c o, State.initial.db.outbox.get c ≠ some o := by simp [State.initial, Db.empty]
    have hcmd : ∀ c row, State.initial.db.commands.get c ≠ some row := by
      simp [State.initial, Db.empty]
    have hbatch : ∀ t rows, State.initial.batches t ≠ some rows := by simp [State.initial]
    have hstream : ∀ (i : ℕ) (e : Entry), State.initial.stream[i]? ≠ some e := by
      simp [State.initial]
    exact ⟨fun c o t ho => absurd ho (hout c o), fun t rows hb => absurd hb (hbatch t rows),
      fun t rows hb => absurd hb (hbatch t rows), fun t rows hb => absurd hb (hbatch t rows),
      fun c row o hc => absurd hc (hcmd c row), fun i e he => absurd he (hstream i e),
      fun c row hc => absurd hc (hcmd c row), fun c row hc => absurd hc (hcmd c row),
      fun p proc hp => by simp [State.initial] at hp⟩
  · have hrouting := reachable_routing hr
    exact hd.step hrouting.routed (reachable_dispatch hr) (step_case hrouting hs)

/-! ## The result -/

/-- No command is lost. In every reachable state of the worker a `READY` command has its outbox row
`PENDING` or `CLAIMED`, or an unacknowledged message in its generation on the stream; a `RUNNING`
command has such a message; and a step that moves a message to the dead-letter stream, in the
generation its command is in, finds that command `FAILED`. -/
theorem worker_delivery (cfg : Config) (s : State) (hs : (worker cfg).Reachable s) :
    (∀ c row, s.db.commands.get c = some row → row.state = .ready →
      (∃ o, s.db.outbox.get c = some o ∧ (o.state = .pending ∨ o.state = .claimed)) ∨
        OnStream cfg s c row.generation) ∧
    (∀ c row, s.db.commands.get c = some row → row.state = .running →
      OnStream cfg s c row.generation) ∧
    (∀ a s', step cfg s a = some s' → ∀ (i : ℕ) (e e' : Entry), s.stream[i]? = some e →
      s'.stream[i]? = some e' → e.dead = false → e'.dead = true →
      ∃ c g, decodeEnvelope cfg.nspace e.fields = .ok (c, g) ∧
        ∀ row, s.db.commands.get c = some row → row.generation = g → row.state = .failed) := by
  have hd := reachable_delivery hs
  refine ⟨fun c row hc hready => ?_, hd.running, ?_⟩
  · obtain ⟨o, ho, h | h | h⟩ := hd.ready c row hc hready
    · exact .inl ⟨o, ho, .inl h⟩
    · exact .inl ⟨o, ho, .inr h⟩
    · exact .inr h
  · intro a s' hstep i e e' he he' halive hdead
    have hi := reachable_dispatch hs
    have hcase := step_case (reachable_routing hs) hstep
    obtain ⟨c, g, hf, -⟩ := hi.entry i e he
    obtain ⟨e'', he'', -, -, hkept⟩ := (hcase.stream hi hd).kept i e he
    rw [he'] at he''
    obtain rfl := Option.some.inj he''
    refine ⟨c, g, by rw [hf, decodeEnvelope_publishFields], ?_⟩
    rcases hkept hdead with hold | hfailed
    · rw [halive] at hold
      cases hold
    · exact hfailed c g hf

/-- The run of one command whose handler rejects its event, up to the consumer's dead-letter
write. -/
def rejectRun : List Action :=
  dispatchRun ++ [.work 1 .ok, .work 1 (.outcome (.raisedReject "no")), .work 1 .ok, .work 1 .ok]

/-- The guarantee at the end of that run, where the message is dead-lettered next: its command is
`FAILED` in the message's generation. -/
theorem worker_delivery_rejectRun :
    ∃ s s' e e', (worker sampleConfig).run .initial rejectRun = some s ∧
      step sampleConfig s (.work 1 .ok) = some s' ∧ s.stream[0]? = some e ∧
      s'.stream[0]? = some e' ∧ e.dead = false ∧ e'.dead = true ∧
      ∃ c g, decodeEnvelope "ns" e.fields = .ok (c, g) ∧
        ∀ row, s.db.commands.get c = some row → row.generation = g → row.state = .failed := by
  have hrun : (worker sampleConfig).run .initial rejectRun = some _ := rfl
  have hspec := (worker_delivery sampleConfig _
    (Machine.Reachable.run (.start rfl) hrun)).2.2 (.work 1 .ok) _ rfl 0 _ _ rfl rfl rfl rfl
  exact ⟨_, _, _, _, hrun, rfl, rfl, rfl, rfl, rfl, hspec⟩

end ExAgent.Worker
