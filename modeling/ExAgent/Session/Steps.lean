import ExAgent.Session.Frame

/-!
# What a step of a session can do

The steps of a session by what they do to it (`Move`): every invariant is a case analysis on it. The
lemmas after it say what the checks of the callers give when they pass, so that no later proof looks
into `next_invocation`, an admission or the adapter.
-/

namespace ExAgent.Session

open Lib ExAgent.Graph

/-- The checkpoint has settled a request: its receipt is there, or its input is refused. -/
def Settled (H : Host) (t : Thread) (row : RequestRow) : Prop :=
  accepted H t row = .ok true ∨ ∃ e, nextInvocation H t row = .error e

/-- No call is in the graph. -/
def System.Outside (s : System) : Prop := ∀ call, s.running ≠ some (call, .looping)

/-- A step by its effect, with the caller whose input it leaves behind. -/
inductive Move (H : Host) (s : System) : Option Owner → System → Prop
  /-- No row is written, and the guard is free afterwards: a refusal, the end of a delivery, the
  begin of a cleanup. -/
  | free (cleanups : List Uuid) (log : List Entry) (hout : s.Outside)
      (hlog : log = s.log ∨ ∃ d e, log = s.log ++ [.delivered d e]) :
      Move H s none
        { s with tables := { s.tables with cleanups }, running := none, log }
  /-- The process of a call dies. -/
  | died :
      Move H s (s.openInput? false) { s with thread := s.thread.ended false, running := none }
  /-- A request is admitted. -/
  | admitted {command : ApiRequest} {target : Node} {tables : Tables} {w : World} {row : RequestRow}
      (hfree : s.running = none) (htarget : targetOf H.deployment s.thread command = .ok target)
      (hstore : storeAccept s.tables s.thread.world command target s.thread.checkpointId =
        .ok (row, tables, w)) :
      Move H s none { s with
        tables, thread := { s.thread with world := w }, log := s.log ++ [.admitted row] }
  /-- A row changes its state; the guard is free afterwards. -/
  | row {row : RequestRow} (state : RequestState) (attempts : ℕ) (hout : s.Outside)
      (hrow : s.tables.requests.get row.command.requestId = some row)
      (hactive : row.state.isActive = true)
      (hstate : state.isActive = false → Settled H s.thread row) :
      Move H s none { s with
        tables := s.tables.withRow { row with state, attempts }, running := none }
  /-- A request is claimed. -/
  | claimed {row : RequestRow} (attempts : ℕ) (hfree : s.running = none)
      (hrow : s.tables.requests.get row.command.requestId = some row)
      (hactive : row.state.isActive = true) :
      Move H s none { s with
        tables := s.tables.withRow { row with state := .running, attempts }
        running := some (.api { row with state := .running, attempts }, .deciding) }
  /-- A delivery takes the guard. -/
  | delivery (d : Delivery) (hfree : s.running = none) :
      Move H s none { s with running := some (.executor d, .deciding) }
  /-- A request finds nothing to invoke. -/
  | nothing {record : RequestRow} (hrun : s.running = some (.api record, .deciding)) :
      Move H s none { s with running := some (.api record, .returned) }
  /-- A request invokes the graph. -/
  | request {record : RequestRow} {input : Input} (hrun : s.running = some (.api record, .deciding))
      (hinput : nextInvocation H s.thread record = .ok (some input)) :
      Move H s none (s.invoke (.api record) input)
  /-- A delivery invokes the graph. -/
  | event {d : Delivery} {input : Input} (hrun : s.running = some (.executor d, .deciding))
      (hinput : decideDelivery d s.thread = .inr input) :
      Move H s none (s.invoke (.executor d) input)
  /-- A node completes. -/
  | checkpoint {call : Call} {n : Node} {svc : Services} {after : SessionState} {next : Option Node}
      (phase : Phase) (hrun : s.running = some (call, .looping)) (hnext : s.thread.next = some n)
      (hok : (superstep H.deployment (call.config H) (s.thread.services svc) n s.thread.values
        s.thread.world).result = .ok (after, next)) :
      Move H s none { s with
        thread :=
          { toGraphState := s.thread.toGraphState.checkpoint n (s.thread.services svc)
              (superstep H.deployment (call.config H) (s.thread.services svc) n s.thread.values
                s.thread.world).final after next
            checkpointId := s.thread.checkpointId + 1
            starter := s.thread.source }
        running := some (call, phase)
        log := s.log ++ [.checkpointed call n s.thread.resume s.thread.values after] }
  /-- A node interrupts. -/
  | interrupt {call : Call} {n : Node} {svc : Services} {e : Raised}
      (hrun : s.running = some (call, .looping)) (hnext : s.thread.next = some n)
      (hkind : interruptKind n ≠ none) (hresume : s.thread.resume = none)
      (herr : (superstep H.deployment (call.config H) (s.thread.services svc) n s.thread.values
        s.thread.world).result = .error e) :
      Move H s none { s with
        thread := { s.thread with
          world := (superstep H.deployment (call.config H) (s.thread.services svc) n
            s.thread.values s.thread.world).final
          interrupt := some s.thread.checkpointId }
        running := some (call, .returned) }
  /-- A node raises or is stopped, and so is the call. -/
  | broken {call : Call} {n : Node} {svc : Services} {w : World} (took : Bool)
      (running : Option (Call × Phase))
      (hrun : s.running = some (call, .looping)) (hnext : s.thread.next = some n)
      (hw : (∃ commits, (superstep H.deployment (call.config H) (s.thread.services svc) n
          s.thread.values).stoppedAt s.thread.world commits = some w) ∨
        ∃ e, (superstep H.deployment (call.config H) (s.thread.services svc) n s.thread.values
          s.thread.world).result = .error e ∧
          w = (superstep H.deployment (call.config H) (s.thread.services svc) n s.thread.values
            s.thread.world).final)
      (hend : running = none ∨ running = some (call, .raised)) :
      Move H s (s.openInput? took)
        { s with thread := { s.thread.ended took with world := w }, running }

/-- What the moves need of the rows: a row has the key of its command, and a request in its call is
the one of the table. -/
structure Held (s : System) : Prop where
  keyed : ∀ k row, s.tables.requests.get k = some row → row.command.requestId = k
  held : ∀ record phase, s.running = some (.api record, phase) →
    s.tables.requests.get record.command.requestId = some record ∧ record.state = .running

section

variable {H : Host} {s s' : System} {a : Action}

/-- Outside of the graph no input is left behind. -/
theorem openInput?_eq_none (h : s.Outside) (took : Bool) : s.openInput? took = none := by
  unfold System.openInput?
  split
  · rename_i call hrun
    exact absurd hrun (h call)
  · rfl

/-- `finish` of the row that was claimed writes the state into it. -/
theorem settle_eq {row : RequestRow} (state : RequestState)
    (hrow : s.tables.requests.get row.command.requestId = some row)
    (hstate : row.state = .pending ∨ row.state = .running) :
    s.settle row state =
      { s with tables := s.tables.withRow { row with state }, running := none } := by
  have hne : ¬(row.state ≠ .pending ∧ row.state ≠ .running) := by tauto
  unfold System.settle Session.finish
  simp [hrow, hne]

/-- A request whose attempt has returned is settled or stays active. -/
theorem settled_of_returnedState {t : Thread} {row : RequestRow}
    (h : (returnedState H t row).isActive = false) : Settled H t row := by
  unfold returnedState at h
  split at h
  · exact absurd h (by decide)
  · exact absurd h (by decide)
  · rename_i hacc
    exact .inl hacc

/-- A row that is tried again is active. -/
theorem retryState_isActive (row : RequestRow) : (retryState H row).isActive = true := by
  unfold retryState
  split <;> rfl

/-- A row whose work is completed is settled. -/
theorem settled_of_completed {t : Thread} {row : RequestRow} (h : completed H t row = true) :
    Settled H t row := by
  unfold completed at h
  split at h
  · rename_i hacc _
    exact .inl hacc
  · exact absurd h (by simp)

/-- A row that is open is active. -/
theorem isActive_of_open {state : RequestState} (h : state = .pending ∨ state = .running) :
    state.isActive = true := by
  rcases h with rfl | rfl <;> rfl

/-- Without a call that runs, nobody is in the graph. -/
theorem outside_of_free (h : s.running = none) : s.Outside := by
  intro call hrun
  rw [h] at hrun
  exact absurd hrun (by simp)

/-- A call in another phase than the loop is not in the graph. -/
theorem outside_of_phase {call : Call} {phase : Phase} (h : s.running = some (call, phase))
    (hp : phase ≠ .looping) : s.Outside := by
  intro call' hrun
  rw [h] at hrun
  obtain ⟨-, rfl⟩ := Prod.mk.inj (Option.some.inj hrun)
  exact hp rfl

/-- Nothing happens while no call holds the guard. -/
theorem Move.idle (hfree : s.running = none) : Move H s none s := by
  have h := Move.free (H := H) (s := s) s.tables.cleanups s.log (outside_of_free hfree) (.inl rfl)
  rwa [← hfree] at h

/-! ## The moves of each step -/

/-- `accept` is a step of its kind. -/
theorem accept_move {command : ApiRequest} (hfree : s.running = none) :
    Move H s none (s.accept H command) := by
  unfold System.accept Session.accept
  cases s.tables.requests.get command.requestId with
  | some existing =>
    dsimp only
    cases validateCommand existing command with
    | error e => exact .idle hfree
    | ok _ => exact .idle hfree
  | none =>
    dsimp only
    cases htarget : targetOf H.deployment s.thread command with
    | error e => exact .idle hfree
    | ok target =>
      dsimp only
      cases hstore : storeAccept s.tables s.thread.world command target s.thread.checkpointId with
      | error e => exact .idle hfree
      | ok r => exact .admitted hfree htarget hstore

/-- `execute` is a step of its kind. -/
theorem execute_move (hheld : Held s) {requestId : Uuid} (hfree : s.running = none) :
    Move H s none (s.execute H requestId) := by
  unfold System.execute
  cases hrow : s.tables.requests.get requestId with
  | none => exact .idle hfree
  | some row =>
    dsimp only
    obtain rfl := hheld.keyed _ _ hrow
    by_cases hopen : row.state ≠ .pending ∧ row.state ≠ .running
    · rw [if_pos hopen]
      exact .idle hfree
    rw [if_neg hopen]
    have hopen : row.state = .pending ∨ row.state = .running := by tauto
    have hactive := isActive_of_open hopen
    by_cases hdone : H.maxAttempts ≤ row.attempts ∧ completed H s.thread row = true
    · rw [if_pos hdone, settle_eq .applied hrow hopen]
      exact .row .applied row.attempts (outside_of_free hfree) hrow hactive fun _ =>
        settled_of_completed hdone.2
    rw [if_neg hdone]
    by_cases hclaim : claimedState H s.tables row = .running
    · rw [if_pos hclaim]
      unfold claim
      rw [hclaim]
      exact .claimed _ hfree hrow hactive
    · rw [if_neg hclaim]
      have hblocked : claimedState H s.tables row = .blocked := by
        unfold claimedState at hclaim ⊢
        split_ifs at hclaim ⊢ <;> first | rfl | exact absurd rfl hclaim
      unfold claim
      rw [hblocked]
      exact .row .blocked _ (outside_of_free hfree) hrow hactive fun h => absurd h (by decide)

/-- `resolve_applied` is a step of its kind. -/
theorem resolveApplied_move (hheld : Held s) {requestId : Uuid} (hfree : s.running = none) :
    Move H s none (s.resolveApplied H requestId) := by
  unfold System.resolveApplied
  cases hrow : s.tables.requests.get requestId with
  | none => exact .idle hfree
  | some row =>
    dsimp only
    obtain rfl := hheld.keyed _ _ hrow
    split_ifs with h
    · have hmove : Move H s none { s with
          tables := s.tables.withRow { row with state := .applied }, running := none } :=
        .row .applied row.attempts (outside_of_free hfree) hrow (by rw [h.1]; rfl) fun _ =>
          settled_of_completed h.2.2
      rwa [← hfree] at hmove
    · exact .idle hfree

/-- A decided invocation is a step of its kind. -/
theorem decide_move (hheld : Held s) {call : Call} (hrun : s.running = some (call, .deciding)) :
    Move H s none (s.decide H call) := by
  have hout : s.Outside := outside_of_phase hrun (by decide)
  cases call with
  | api record =>
    obtain ⟨hrow, hstate⟩ := hheld.held record _ hrun
    have hactive : record.state.isActive = true := by rw [hstate]; rfl
    -- Whatever the state that is written, the input of the request is refused.
    have hrefused : ∀ state e, nextInvocation H s.thread record = .error e →
        Move H s none (s.settle record state) := by
      intro state e he
      rw [settle_eq state hrow (.inr hstate)]
      exact .row state record.attempts hout hrow hactive fun _ => .inr ⟨e, he⟩
    cases hn : nextInvocation H s.thread record with
    | error e =>
      cases e <;> simp only [System.decide, hn] <;> exact hrefused _ _ hn
    | ok input =>
      simp only [System.decide, hn]
      cases input with
      | none => exact .nothing hrun
      | some input => exact .request hrun hn
  | executor d =>
    cases hd : decideDelivery d s.thread with
    | inl e =>
      simp only [System.decide, hd]
      exact .free s.tables.cleanups (s.log ++ [.delivered d e]) hout (.inr ⟨d, e, rfl⟩)
    | inr input =>
      simp only [System.decide, hd]
      exact .event hrun hd

/-- A run of a node is a step of its kind. -/
theorem node_move {svc : Services} {call : Call} {n : Node}
    (hrun : s.running = some (call, .looping)) (hnext : s.thread.next = some n) :
    Move H s (abandons H s (.node svc)) (s.node H svc call n) := by
  have hlooping : s.looping? = some (call, n) := by simp [System.looping?, hrun, hnext]
  have htakes : s.takes H svc = s.thread.takes H.deployment (call.config H) svc n := by
    simp [System.takes, hlooping]
  simp only [abandons, hlooping, Option.bind_some, htakes]
  unfold System.node
  cases hr : (superstep H.deployment (call.config H) (s.thread.services svc) n s.thread.values
      s.thread.world).result with
  | ok r =>
    simp only [Thread.runNext, hr, NodeEnd.isRaised]
    exact .checkpoint _ hrun hnext hr
  | error e =>
    by_cases hint : e = .graphInterrupt ∧ interruptKind n ≠ none ∧ s.thread.resume = none
    · simp only [Thread.runNext, hr, if_pos hint, NodeEnd.isRaised]
      exact .interrupt hrun hnext hint.2.1 hint.2.2 hr
    · simp only [Thread.runNext, hr, if_neg hint, NodeEnd.isRaised, if_true]
      cases call with
      | api record => exact .broken _ _ hrun hnext (.inr ⟨e, hr, rfl⟩) (.inr rfl)
      | executor d => exact .broken _ _ hrun hnext (.inr ⟨e, hr, rfl⟩) (.inl rfl)

/-- The end of a call is a step of its kind. -/
theorem finish_move (hheld : Held s) {call : Call} {phase : Phase}
    (hrun : s.running = some (call, phase)) (h : s.finish H call phase = some s') :
    Move H s none s' := by
  have hsettle : ∀ (record : RequestRow) (state : RequestState), phase ≠ .looping →
      call = .api record → (state.isActive = false → Settled H s.thread record) →
      Move H s none (s.settle record state) := by
    rintro record state hphase rfl hstate
    obtain ⟨hrow, hrunning⟩ := hheld.held record _ hrun
    rw [settle_eq state hrow (.inr hrunning)]
    exact .row state record.attempts (outside_of_phase hrun hphase) hrow
      (by rw [hrunning]; rfl) hstate
  unfold System.finish at h
  split at h
  · obtain rfl := Option.some.inj h
    exact hsettle _ _ (by decide) rfl settled_of_returnedState
  · obtain rfl := Option.some.inj h
    exact hsettle _ _ (by decide) rfl fun hr => absurd hr (by simp [retryState_isActive])
  · rename_i d
    obtain rfl := Option.some.inj h
    exact .free s.tables.cleanups (s.log ++ [.delivered d (deliveryEnd d s.thread)])
      (outside_of_phase hrun (by decide)) (.inr ⟨d, _, rfl⟩)
  · exact absurd h (by simp)

/-- A call in the loop has a node next. -/
theorem looping?_eq_some {p : Call × Node} (h : s.looping? = some p) :
    s.running = some (p.1, .looping) ∧ s.thread.next = some p.2 := by
  unfold System.looping? at h
  split at h
  · rename_i hrun hnext
    obtain rfl := Option.some.inj h
    exact ⟨hrun, hnext⟩
  · exact absurd h (by simp)

/-- A step outside of the graph needs that nobody holds the Session. -/
theorem unheld_eq_some {t : System} (h : s.unheld t = some s') : s.running = none ∧ s' = t := by
  unfold System.unheld at h
  split_ifs at h with hfree
  exact ⟨hfree, (Option.some.inj h).symm⟩

/-- Every step is a move. -/
theorem step_move (hheld : Held s) (h : step H s a = some s') : Move H s (abandons H s a) s' := by
  cases a with
  | accept command =>
    obtain ⟨hfree, rfl⟩ := unheld_eq_some h
    exact accept_move hfree
  | execute requestId =>
    obtain ⟨hfree, rfl⟩ := unheld_eq_some h
    exact execute_move hheld hfree
  | deliver d =>
    obtain ⟨hfree, rfl⟩ := unheld_eq_some h
    exact .delivery d hfree
  | resolveApplied requestId =>
    obtain ⟨hfree, rfl⟩ := unheld_eq_some h
    exact resolveApplied_move hheld hfree
  | cleanup taskId =>
    obtain ⟨hfree, rfl⟩ := unheld_eq_some h
    have hmove := Move.free (H := H) (s := s) (taskId :: s.tables.cleanups) s.log
      (outside_of_free hfree) (.inl rfl)
    rwa [← hfree] at hmove
  | decide =>
    unfold step at h
    dsimp only at h
    split at h
    · rename_i call hrun
      obtain rfl := Option.some.inj h
      exact decide_move hheld hrun
    · exact absurd h (by simp)
  | node svc =>
    obtain ⟨p, hp, rfl⟩ := Option.map_eq_some_iff.mp h
    obtain ⟨hrun, hnext⟩ := looping?_eq_some hp
    exact node_move hrun hnext
  | timeout svc commits took =>
    obtain ⟨p, hp, h⟩ := Option.bind_eq_some_iff.mp h
    obtain ⟨hrun, hnext⟩ := looping?_eq_some hp
    obtain ⟨w, hw, rfl⟩ := Option.map_eq_some_iff.mp h
    obtain ⟨call, n⟩ := p
    cases call with
    | api record => exact .broken _ _ hrun hnext (.inl ⟨commits, hw⟩) (.inr rfl)
    | executor d => exact .broken _ _ hrun hnext (.inl ⟨commits, hw⟩) (.inl rfl)
  | stop svc commits =>
    obtain ⟨p, hp, h⟩ := Option.bind_eq_some_iff.mp h
    obtain ⟨hrun, hnext⟩ := looping?_eq_some hp
    obtain ⟨w, hw, rfl⟩ := Option.map_eq_some_iff.mp h
    exact .broken false none hrun hnext (.inl ⟨commits, hw⟩) (.inl rfl)
  | finish =>
    obtain ⟨p, hp, h⟩ := Option.bind_eq_some_iff.mp h
    exact finish_move hheld hp h
  | die =>
    obtain ⟨p, hp, rfl⟩ := Option.map_eq_some_iff.mp h
    exact .died

/-! ## What the checks give -/

/-- A boundary is of its node's kind. -/
theorem boundaryOf_kind {n : Node} {v : SessionState} {b : Boundary} (h : boundaryOf n v = some b) :
    interruptKind n = some b.kind := by
  unfold boundaryOf at h
  split at h <;> simp_all only [Option.map_eq_some_iff, Option.some.injEq, reduceCtorEq]
  · exact h ▸ rfl
  all_goals
    obtain ⟨wf, -, rfl⟩ := h
    rfl

/-- A boundary that is shown is that of the next node. -/
theorem boundary?_eq_some {t : Thread} {name : Node} {id : ℕ} {b : Boundary}
    (h : t.boundary? = some (name, id, b)) :
    t.next = some name ∧ t.interrupt = some id ∧ boundaryOf name t.values = some b := by
  unfold Thread.boundary? at h
  split at h
  · rename_i n i hnext hint
    obtain ⟨b', hb, he⟩ := Option.map_eq_some_iff.mp h
    obtain ⟨rfl, rfl, rfl⟩ := he
    exact ⟨hnext, hint, hb⟩
  · exact absurd h (by simp)

/-- The check of a signal reads the checkpoint and its interrupt. -/
theorem validateResumeSnapshot_congr {D : Deployment} {t t' : Thread} {turn : TaskTurn}
    {interruptId : ℕ} {signal : ApiSignal} (hvalues : t'.values = t.values)
    (hnext : t'.next = t.next) (hint : t'.interrupt = t.interrupt) :
    validateResumeSnapshot D t' turn interruptId signal =
      validateResumeSnapshot D t turn interruptId signal := by
  unfold validateResumeSnapshot Thread.boundary?
  rw [hvalues, hnext, hint]

/-- A signal that a snapshot takes answers its open interrupt. -/
theorem validateResumeSnapshot_ok {D : Deployment} {t : Thread} {turn : TaskTurn} {interruptId : ℕ}
    {signal : ApiSignal} {name : Node}
    (h : validateResumeSnapshot D t turn interruptId signal = .ok name) :
    t.interrupt = some interruptId ∧ t.next = some name ∧
      interruptKind name = some signal.expected := by
  unfold validateResumeSnapshot at h
  by_cases hid : t.values.activeTaskId ≠ some turn.activeTaskId ∨
      t.values.taskRequests turn.activeTaskId ≠ some (D.fingerprint turn)
  · rw [if_pos hid] at h
    exact absurd h (by simp)
  rw [if_neg hid] at h
  split at h
  · exact absurd h (by simp)
  rename_i name' id b hb
  obtain ⟨hnext, hint, hof⟩ := boundary?_eq_some hb
  by_cases hstale : id ≠ interruptId
  · rw [if_pos hstale] at h
    exact absurd h (by simp)
  rw [if_neg hstale] at h
  by_cases hkind : b.kind ≠ signal.expected ∨ b.taskId ≠ some turn.activeTaskId
  · rw [if_pos hkind] at h
    exact absurd h (by simp)
  rw [if_neg hkind] at h
  obtain ⟨hkind, -⟩ : b.kind = signal.expected ∧ _ := by simpa [not_or] using hkind
  split_ifs at h with hcancel
  split at h
  · exact absurd h (by simp)
  · obtain rfl : name' = name := Except.ok.inj h
    exact ⟨(not_not.mp hstale) ▸ hint, hnext, by rw [boundaryOf_kind hof, hkind]⟩

/-- What a request asks of the checkpoint it was admitted at. -/
def Target (t : Thread) (command : ApiRequest) (target : Node) : Prop :=
  match command.input with
  | .start => target = .beginTask ∧ t.values.taskRequests command.turn.activeTaskId = none
  | .resume interruptId _ =>
    interruptKind target ≠ none ∧ t.interrupt = some interruptId ∧ t.next = some target

/-- A START that is not in the Session yet is new to it. -/
theorem validateStartSnapshot_new {D : Deployment} {t : Thread} {turn : TaskTurn}
    (h : validateStartSnapshot D t turn = .ok false) :
    t.values.taskRequests turn.activeTaskId = none := by
  unfold validateStartSnapshot at h
  cases hreq : t.values.taskRequests turn.activeTaskId with
  | none => rfl
  | some fingerprint =>
    rw [hreq] at h
    dsimp only at h
    split_ifs at h
    simp at h

/-- A target that is found is the command's. -/
theorem targetOf_ok {D : Deployment} {t : Thread} {command : ApiRequest} {target : Node}
    (h : targetOf D t command = .ok target) : Target t command target := by
  unfold targetOf at h
  unfold Target
  cases hin : command.input with
  | start =>
    rw [hin] at h
    dsimp only at h ⊢
    cases hv : validateStartSnapshot D t command.turn with
    | error e => simp [hv] at h
    | ok started =>
      cases started with
      | true => simp [hv] at h
      | false =>
        obtain rfl : Node.beginTask = target := by simpa [hv] using h
        exact ⟨rfl, validateStartSnapshot_new hv⟩
  | resume interruptId signal =>
    rw [hin] at h
    dsimp only at h ⊢
    cases hv : validateResumeSnapshot D t command.turn interruptId signal with
    | error e => simp [hv] at h
    | ok name =>
      rw [hv] at h
      dsimp only at h
      split_ifs at h with hinput
      obtain rfl := Except.ok.inj h
      obtain ⟨hint, hnext, hkind⟩ := validateResumeSnapshot_ok hv
      exact ⟨by simp [hkind], hint, hnext⟩

/-- A `START` adds a Task that was not there; a signal leaves the Tasks alone. -/
theorem admitTask_ok {tables : Tables} {w w' : World} {command : ApiRequest}
    {turns : Table Uuid TaskTurn} (h : admitTask tables w command = .ok (turns, w')) :
    w' = w ∨ command.input = .start ∧ w' = w.accept command.turn.activeTaskId := by
  unfold admitTask at h
  dsimp only at h
  by_cases hclean : command.turn.activeTaskId ∈ tables.cleanups
  · rw [if_pos hclean] at h
    exact absurd h (by simp)
  rw [if_neg hclean] at h
  cases hin : command.input with
  | start =>
    rw [hin] at h
    dsimp only at h
    split at h
    · exact absurd h (by simp)
    · split at h
      · exact absurd h (by simp)
      · exact absurd h (by simp)
      · exact .inr ⟨rfl, (Prod.mk.inj (Except.ok.inj h)).2.symm⟩
  | resume interruptId signal =>
    rw [hin] at h
    dsimp only at h
    split at h
    · split_ifs at h
      exact .inl (Prod.mk.inj (Except.ok.inj h)).2.symm
    · exact absurd h (by simp)

/-- What an admission does: a new row, and for a `START` a new Task. -/
theorem storeAccept_ok {tables tables' : Tables} {w w' : World} {command : ApiRequest}
    {target : Node} {base : ℕ} {row : RequestRow}
    (h : storeAccept tables w command target base = .ok (row, tables', w')) :
    row = { command, targetNode := target, baseCheckpointId := base } ∧
      (∀ k r, tables.requests.get k = some r → r.state.isActive = false) ∧
      (∀ k, tables'.requests.get k =
        if k = command.requestId then some row else tables.requests.get k) ∧
      (w' = w ∨ command.input = .start ∧ w' = w.accept command.turn.activeTaskId) := by
  unfold storeAccept at h
  cases hactive : activeRequest? tables.requests with
  | some active => simp [hactive] at h
  | none =>
    rw [hactive] at h
    dsimp only at h
    cases haccept : admitTask tables w command with
    | error e => simp [haccept] at h
    | ok r =>
      obtain ⟨turns, w₁⟩ := r
      rw [haccept] at h
      dsimp only at h
      split at h
      · exact absurd h (by simp)
      · rename_i requests hins
        simp only [Except.ok.injEq, Prod.mk.injEq] at h
        obtain ⟨rfl, rfl, rfl⟩ := h
        refine ⟨rfl, fun k r hr => ?_, (Table.get_of_insert hins).2, ?_⟩
        · unfold activeRequest? at hactive
          rw [Option.map_eq_none_iff, List.find?_eq_none] at hactive
          simpa using hactive (k, r) (Table.mem_entries_iff.mpr hr)
        · exact admitTask_ok haccept

/-- The request that is admitted has no row before. -/
theorem storeAccept_new {tables tables' : Tables} {w w' : World} {command : ApiRequest}
    {target : Node} {base : ℕ} {row : RequestRow}
    (h : storeAccept tables w command target base = .ok (row, tables', w')) :
    tables.requests.get command.requestId = none := by
  unfold storeAccept at h
  split at h
  · exact absurd h (by simp)
  · split at h
    · exact absurd h (by simp)
    · dsimp only at h
      split at h
      · exact absurd h (by simp)
      · rename_i hins
        exact (Table.get_of_insert hins).1

/-! ## What a caller gives to the graph -/

/-- `next_invocation` when it has something to invoke, by its branches. -/
inductive Decided (H : Host) (t : Thread) (row : RequestRow) : Input → Prop
  /-- The receipt is there and the pending nodes are the request's own. -/
  | own (hreceipt : t.values.apiReceipts row.command.requestId ≠ none) (hown : OwnsPending t row) :
      Decided H t row .pending
  /-- The turn is stored. -/
  | begun (hreceipt : t.values.apiReceipts row.command.requestId = none)
      (hin : row.command.input = .start) (hnext : t.next = some .beginTask)
      (hturn : t.values.turn = some row.command.turn) : Decided H t row .pending
  /-- The turn is not stored yet. -/
  | start (hreceipt : t.values.apiReceipts row.command.requestId = none)
      (hin : row.command.input = .start) (hnext : t.next = none)
      (hbase : t.checkpointId = row.baseCheckpointId) : Decided H t row (.turn row.command.turn)
  /-- The interrupt of the admission is open. -/
  | answer {interruptId : ℕ} {signal : ApiSignal}
      (hreceipt : t.values.apiReceipts row.command.requestId = none)
      (hin : row.command.input = .resume interruptId signal)
      (hvalid : validateResumeSnapshot H.deployment t row.command.turn interruptId signal =
        .ok row.targetNode) :
      Decided H t row (.resume interruptId signal.toResume)
  /-- The wait shows no interrupt at the checkpoint of the admission. -/
  | stored {interruptId : ℕ} {signal : ApiSignal}
      (hreceipt : t.values.apiReceipts row.command.requestId = none)
      (hin : row.command.input = .resume interruptId signal) (hint : t.interrupt = none)
      (hnext : t.next = some row.targetNode) (hbase : t.checkpointId = row.baseCheckpointId) :
      Decided H t row .pending

/-- A START that goes on was decided by the thread it finds. -/
theorem startInvocation_decided {t : Thread} {row : RequestRow} {input : Input}
    (hreceipt : t.values.apiReceipts row.command.requestId = none)
    (hin : row.command.input = .start)
    (h : startInvocation H.deployment t row = .ok (some input)) : Decided H t row input := by
  unfold startInvocation at h
  dsimp only at h
  by_cases hbegun : t.next = some .beginTask ∧ t.values.turn = some row.command.turn
  · rw [if_pos hbegun] at h
    obtain rfl := Option.some.inj (Except.ok.inj h)
    exact .begun hreceipt hin hbegun.1 hbegun.2
  rw [if_neg hbegun] at h
  by_cases hreq : t.values.taskRequests row.command.turn.activeTaskId ≠ none
  · rw [if_pos hreq] at h
    exact absurd h (by simp)
  rw [if_neg hreq] at h
  cases hv : validateStartSnapshot H.deployment t row.command.turn with
  | error e => simp [hv] at h
  | ok started =>
    rw [hv] at h
    dsimp only at h
    by_cases hbase : t.checkpointId ≠ row.baseCheckpointId
    · rw [if_pos hbase] at h
      exact absurd h (by simp)
    rw [if_neg hbase] at h
    obtain rfl := Option.some.inj (Except.ok.inj h)
    refine .start hreceipt hin ?_ (not_not.mp hbase)
    -- A Task that is not in the checkpoint may only begin where nothing is pending.
    unfold validateStartSnapshot at hv
    rw [not_not.mp hreq] at hv
    dsimp only at hv
    split_ifs at hv with hown hnext
    exact not_not.mp hnext

/-- So was a resume. -/
theorem resumeInvocation_decided {t : Thread} {row : RequestRow} {input : Input} {interruptId : ℕ}
    {signal : ApiSignal} (hreceipt : t.values.apiReceipts row.command.requestId = none)
    (hin : row.command.input = .resume interruptId signal)
    (h : resumeInvocation H.deployment t row interruptId signal = .ok (some input)) :
    Decided H t row input := by
  unfold resumeInvocation at h
  dsimp only at h
  by_cases hint : t.interrupt ≠ none
  · rw [if_pos hint] at h
    cases hv : validateResumeSnapshot H.deployment t row.command.turn interruptId signal with
    | error e => simp [hv] at h
    | ok name =>
      rw [hv] at h
      dsimp only at h
      by_cases hname : name ≠ row.targetNode
      · rw [if_pos hname] at h
        exact absurd h (by simp)
      rw [if_neg hname] at h
      obtain rfl := Option.some.inj (Except.ok.inj h)
      exact .answer hreceipt hin ((not_not.mp hname) ▸ hv)
  · rw [if_neg hint] at h
    split_ifs at h with hstored
    obtain rfl := Option.some.inj (Except.ok.inj h)
    exact .stored hreceipt hin (not_not.mp hint) hstored.1 hstored.2.1

/-- An invocation that is given was decided by the thread it finds. -/
theorem nextInvocation_decided {t : Thread} {row : RequestRow} {input : Input}
    (h : nextInvocation H t row = .ok (some input)) : Decided H t row input := by
  unfold nextInvocation accepted at h
  cases hreceipt : t.values.apiReceipts row.command.requestId with
  | none =>
    rw [hreceipt] at h
    dsimp only at h
    cases hin : row.command.input with
    | start =>
      rw [hin] at h
      exact startInvocation_decided hreceipt hin h
    | resume interruptId signal =>
      rw [hin] at h
      exact resumeInvocation_decided hreceipt hin h
  | some receipt =>
    rw [hreceipt] at h
    dsimp only at h
    by_cases hid : receipt ≠ ⟨row.command.turn.activeTaskId, H.fingerprint row.command⟩
    · simp [hid] at h
    · simp only [if_neg hid] at h
      unfold continuation at h
      split_ifs at h with hown
      · obtain rfl := Option.some.inj (Except.ok.inj h)
        exact .own (by simp [hreceipt]) hown
      · exact absurd h (by simp)

/-- The adapter when it has something to invoke, by its branches. -/
inductive Answered (d : Delivery) (t : Thread) : Input → Prop
  /-- The event is accepted, with its receipt or without, and the pending nodes may be its own. -/
  | own (howner : d.MayOwn t.values.invocationOwner) (hint : t.interrupt = none)
      (htask : t.values.activeTaskId = some d.taskId) : Answered d t .pending
  /-- A wait for an Executor event is open. -/
  | event {interruptId : ℕ} (hreceipt : t.values.ewReceipts d.commandId = none)
      (htask : t.values.activeTaskId = some d.taskId)
      (hexecution : t.values.executionId = some d.executionId)
      (hint : t.interrupt = some interruptId) (hnext : t.next = some .waitExternalSignal) :
      Answered d t (.resume interruptId (.worker d.action))

/-- The only node that waits for the Executor is `wait_external_signal`. -/
theorem interruptKind_executorEvent {n : Node} (h : interruptKind n = some .executorEvent) :
    n = .waitExternalSignal := by
  cases n <;> first | rfl | exact absurd h (by simp [interruptKind])

/-- A delivery without a receipt is answered by the thread it finds. -/
theorem beforeReceipt_answered {d : Delivery} {t : Thread} {input : Input}
    (hreceipt : t.values.ewReceipts d.commandId = none) (h : beforeReceipt d t = .inr input) :
    Answered d t input := by
  unfold beforeReceipt at h
  dsimp only at h
  by_cases hempty : t.checkpointId = 0
  · rw [if_pos hempty] at h
    exact absurd h (by simp)
  rw [if_neg hempty] at h
  by_cases hbind : t.values.activeTaskId ≠ some d.taskId ∨ t.values.executionId ≠ some d.executionId
  · rw [if_pos hbind] at h
    split_ifs at h
  rw [if_neg hbind] at h
  obtain ⟨htask, hexec⟩ : t.values.activeTaskId = some d.taskId ∧
      t.values.executionId = some d.executionId := by simpa [not_or] using hbind
  split at h
  · exact absurd h (by simp)
  · split_ifs at h with hint hother
    obtain rfl := Sum.inr.inj h
    obtain ⟨-, howner⟩ : _ ∧ d.MayOwn t.values.invocationOwner := by simpa [not_or] using hother
    exact .own howner (not_not.mp hint) htask
  · rename_i n name interruptId b hnext hb
    unfold atInterrupt at h
    split_ifs at h with hkind hboundary hseq
    obtain rfl := Sum.inr.inj h
    obtain ⟨hnext, hint, hof⟩ := boundary?_eq_some hb
    have hwait :=
      interruptKind_executorEvent ((boundaryOf_kind hof).trans (by rw [not_not.mp hkind]))
    exact .event hreceipt htask hexec hint (hwait ▸ hnext)

/-- A delivery that gives an input is answered by the thread it finds. -/
theorem decideDelivery_answered {d : Delivery} {t : Thread} {input : Input}
    (h : decideDelivery d t = .inr input) : Answered d t input := by
  unfold decideDelivery at h
  cases hreceipt : t.values.ewReceipts d.commandId with
  | none =>
    rw [hreceipt] at h
    exact beforeReceipt_answered hreceipt h
  | some receipt =>
    rw [hreceipt] at h
    dsimp only at h
    unfold afterReceipt at h
    split_ifs at h with hid howner hpending
    obtain rfl := Sum.inr.inj h
    exact .own howner hpending.2.2.1 hpending.2.2.2.1

end

end ExAgent.Session
