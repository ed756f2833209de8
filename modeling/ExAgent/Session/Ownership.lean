import ExAgent.Session.Steps

/-!
# Who owns the pending work of a session

Invariants of a session. The rows of the requests are sound (`Rows`): one request at most keeps
others out, and a request has the command, the target and the base checkpoint of its admission. An
answer is one to an interrupt that is shown (`Shape`). And the pending work belongs to somebody
(`Owned`): an input that no node has returned from is that of the one active request, with its
target next and its receipt missing, or of the delivery in the graph; and an active request is the
recorded owner only of work that goes back to its own input.

The last one holds in runs in which no delivery leaves its event behind with the wait. Requests may
leave their answers.

Every step of a session is a step of its graph or leaves the graph alone (`graph_reachable`), so
what is proved of the runs of the session graph holds in every session.
-/

namespace ExAgent.Session

open Lib ExAgent.Graph

/-! ## The graph below a session -/

section

variable {H : Host} {s s' : System} {left : Option Owner}

/-- Taking an input enters the graph at `START`, or leaves it alone. -/
theorem put_graph {D : Deployment} {t : Thread} (owner : Owner) (input : Input) :
    (t.put owner input).toGraphState = t.toGraphState ∨
      ∃ a, graphStep D t.toGraphState a = some (t.put owner input).toGraphState := by
  cases input with
  | turn turn => exact .inr ⟨.start turn, rfl⟩
  | resume interruptId value =>
    refine .inl ?_
    unfold Thread.put
    dsimp only
    split_ifs <;> rfl
  | pending => exact .inl rfl

/-- The thread of a session moves as the graph does. -/
theorem Move.graph (h : Move H s left s') :
    s'.thread.toGraphState = s.thread.toGraphState ∨
      ∃ a, graphStep H.deployment s.thread.toGraphState a = some s'.thread.toGraphState := by
  cases h with
  | free | died | row | claimed | delivery | nothing => exact .inl rfl
  | @admitted command _ _ _ _ hfree htarget hstore =>
    obtain ⟨-, -, -, rfl | ⟨hstart, rfl⟩⟩ := storeAccept_ok hstore
    · exact .inl rfl
    · refine .inr ⟨.accept command.turn.activeTaskId, ?_⟩
      have htarget := targetOf_ok htarget
      unfold Target at htarget
      rw [hstart] at htarget
      simp [graphStep, htarget.2]
  | request hrun hinput => exact put_graph _ _
  | event hrun hinput => exact put_graph _ _
  | @checkpoint call n svc _ _ phase hrun hnext hok =>
    refine .inr ⟨.run (call.config H) (s.thread.services svc), ?_⟩
    simp only [graphStep, hnext, Option.map_some, hok]
  | @interrupt call n svc _ hrun hnext hkind hresume herr =>
    refine .inr ⟨.run (call.config H) (s.thread.services svc), ?_⟩
    simp only [graphStep, hnext, Option.map_some, herr]
  | @broken call n svc _ took running hrun hnext hw hend =>
    rcases hw with ⟨commits, hw⟩ | ⟨e, herr, rfl⟩
    · refine .inr ⟨.stop (call.config H) (s.thread.services svc) commits, ?_⟩
      simp only [graphStep, hnext, Option.bind_some, hw, Option.map_some, Thread.ended_toGraphState]
    · refine .inr ⟨.run (call.config H) (s.thread.services svc), ?_⟩
      simp only [graphStep, hnext, Option.map_some, herr, Thread.ended_toGraphState]

end

/-! ## The rows of the requests -/

/-- The same request: what `claim` and `finish` leave of a row. -/
structure SameRequest (r r' : RequestRow) : Prop where
  command : r'.command = r.command
  target : r'.targetNode = r.targetNode
  base : r'.baseCheckpointId = r.baseCheckpointId

/-- The target of an admitted request: `begin_task`, or the node whose interrupt it answers. The
checkpoint it was admitted at is that of the interrupt. -/
def RequestRow.Aimed (r : RequestRow) : Prop :=
  match r.command.input with
  | .start => r.targetNode = .beginTask
  | .resume interruptId _ => interruptKind r.targetNode ≠ none ∧ r.baseCheckpointId = interruptId

/-- An interrupt is that of the checkpoint, and of a node that waits for an answer; an answer is one
to an interrupt that is shown. -/
structure Shape (t : Thread) : Prop where
  interrupt : ∀ id, t.interrupt = some id → id = t.checkpointId
  waits : t.interrupt ≠ none → ∃ n, t.next = some n ∧ interruptKind n ≠ none
  answered : t.answer? ≠ none → t.interrupt ≠ none

/-- The rows of the requests are sound. -/
structure Rows (s : System) : Prop extends Held s where
  shape : Shape s.thread
  /-- An answer that is not stored is with the call in the graph. -/
  given : s.Outside → s.thread.given = none
  /-- One request at most keeps others out. -/
  single : ∀ k k' r r', s.tables.requests.get k = some r → s.tables.requests.get k' = some r' →
    r.state.isActive = true → r'.state.isActive = true → k = k'
  /-- A row is that of an admission. -/
  logged : ∀ k r, s.tables.requests.get k = some r → ∃ r₀, .admitted r₀ ∈ s.log ∧ SameRequest r₀ r
  aimed : ∀ k r, s.tables.requests.get k = some r → r.Aimed
  bounded : ∀ k r, s.tables.requests.get k = some r → r.baseCheckpointId ≤ s.thread.checkpointId
  /-- At the checkpoint of its admission, the interrupt that a request answers is shown. -/
  shown : ∀ k r, s.tables.requests.get k = some r → r.command.input ≠ .start →
    r.baseCheckpointId = s.thread.checkpointId → s.thread.interrupt ≠ none
  /-- A request that owns the session has a row. -/
  known : ∀ k, s.thread.values.invocationOwner = some (some (.api k)) →
    s.tables.requests.get k ≠ none

section

variable {H : Host} {s s' : System} {left : Option Owner} {row : RequestRow}

/-- A row that is written shows at its own key only. -/
theorem get_withRow (hrow : s.tables.requests.get row.command.requestId = some row)
    (state : RequestState) (attempts : ℕ) (k : Uuid) :
    (s.tables.withRow { row with state, attempts }).requests.get k =
      if k = row.command.requestId then some { row with state, attempts }
      else s.tables.requests.get k := by
  unfold Tables.withRow
  rw [Table.get_modifyAt]
  by_cases hk : k = row.command.requestId
  · simp [hk, hrow]
  · simp [hk]

/-- Nothing but the thread, the caller and the log has changed. -/
theorem Rows.carry (h : Rows s) (hreq : s'.tables.requests = s.tables.requests)
    (hlog : ∀ e ∈ s.log, e ∈ s'.log) (hcp : s.thread.checkpointId ≤ s'.thread.checkpointId)
    (hrun : ∀ record phase, s'.running = some (.api record, phase) →
      ∃ phase', s.running = some (.api record, phase')) (hshape : Shape s'.thread)
    (hgiven : s'.Outside → s'.thread.given = none)
    (hshown : s'.thread.checkpointId = s.thread.checkpointId → s.thread.interrupt ≠ none →
      s'.thread.interrupt ≠ none)
    (hknown : ∀ k, s'.thread.values.invocationOwner = some (some (.api k)) →
      s.thread.values.invocationOwner = some (some (.api k)) ∨ s.tables.requests.get k ≠ none) :
    Rows s' := by
  refine ⟨⟨?_, ?_⟩, hshape, hgiven, ?_, ?_, ?_, ?_, ?_, ?_⟩
  · rw [hreq]
    exact h.keyed
  · intro record phase hr
    obtain ⟨phase', hr⟩ := hrun record phase hr
    rw [hreq]
    exact h.held record phase' hr
  · rw [hreq]
    exact h.single
  · intro k r hr
    rw [hreq] at hr
    obtain ⟨r₀, hr₀, hsame⟩ := h.logged k r hr
    exact ⟨r₀, hlog _ hr₀, hsame⟩
  · rw [hreq]
    exact h.aimed
  · intro k r hr
    rw [hreq] at hr
    exact (h.bounded k r hr).trans hcp
  · intro k r hr hin hbase
    rw [hreq] at hr
    -- The row is as old as the checkpoint only if that has not moved.
    have hle := h.bounded k r hr
    have heq : s'.thread.checkpointId = s.thread.checkpointId := by omega
    exact hshown heq (h.shown k r hr hin (hbase.trans heq))
  · intro k ho
    rw [hreq]
    exact (hknown k ho).elim (h.known k) id

/-- A step that leaves the thread alone, and is outside of the graph before and after. -/
theorem Rows.rest (h : Rows s) (hout : s.Outside) (hreq : s'.tables.requests = s.tables.requests)
    (hlog : ∀ e ∈ s.log, e ∈ s'.log) (hthread : s'.thread = s.thread)
    (hrun : ∀ record phase, s'.running = some (.api record, phase) →
      ∃ phase', s.running = some (.api record, phase')) : Rows s' := by
  refine h.carry hreq hlog (by rw [hthread]) hrun (by rw [hthread]; exact h.shape) (fun _ => ?_)
    (fun _ hint => by rwa [hthread]) fun k ho => .inl (by rwa [hthread] at ho)
  rw [hthread]
  exact h.given hout

/-- An active row is written back with another state. -/
theorem Rows.write (h : Rows s) (hout : s.Outside)
    (hrow : s.tables.requests.get row.command.requestId = some row)
    (hactive : row.state.isActive = true) (state : RequestState) (attempts : ℕ)
    (running : Option (Call × Phase))
    (hrun : ∀ record phase, running = some (.api record, phase) →
      record = { row with state, attempts } ∧ state = .running) :
    Rows { s with tables := s.tables.withRow { row with state, attempts }, running } := by
  -- Only the row's own key reads differently.
  have hget := get_withRow hrow state attempts
  have hcases : ∀ k r, (s.tables.withRow { row with state, attempts }).requests.get k = some r →
      (k = row.command.requestId ∧ r = { row with state, attempts }) ∨
        s.tables.requests.get k = some r := by
    intro k r hr
    rw [hget] at hr
    split_ifs at hr with hk
    · exact .inl ⟨hk, (Option.some.inj hr).symm⟩
    · exact .inr hr
  refine ⟨⟨?_, ?_⟩, h.shape, fun _ => h.given hout, ?_, ?_, ?_, ?_, ?_, ?_⟩
  · -- Each row is under its own key.
    intro k r hr
    rcases hcases k r hr with ⟨rfl, rfl⟩ | hr
    · rfl
    · exact h.keyed k r hr
  · -- What runs is the row as it is written.
    intro record phase hr
    obtain ⟨rfl, rfl⟩ := hrun record phase hr
    exact ⟨by simp [hget], rfl⟩
  · -- A row that is active now was active before, so both are the row that was.
    intro k k' r r' hr hr' ha ha'
    have hone : ∀ k r, (s.tables.withRow { row with state, attempts }).requests.get k = some r →
        r.state.isActive = true → k = row.command.requestId := by
      intro k r hr ha
      rcases hcases k r hr with ⟨rfl, rfl⟩ | hr
      · rfl
      · exact h.single _ _ _ _ hr hrow ha hactive
    rw [hone k r hr ha, hone k' r' hr' ha']
  · -- What was logged is not changed by a new state.
    intro k r hr
    rcases hcases k r hr with ⟨rfl, rfl⟩ | hr
    · obtain ⟨r₀, hr₀, hsame⟩ := h.logged _ _ hrow
      exact ⟨r₀, hr₀, hsame.command, hsame.target, hsame.base⟩
    · exact h.logged k r hr
  · intro k r hr
    rcases hcases k r hr with ⟨rfl, rfl⟩ | hr
    · exact h.aimed _ row hrow
    · exact h.aimed k r hr
  · intro k r hr
    rcases hcases k r hr with ⟨rfl, rfl⟩ | hr
    · exact h.bounded _ row hrow
    · exact h.bounded k r hr
  · intro k r hr hin hbase
    rcases hcases k r hr with ⟨rfl, rfl⟩ | hr
    · exact h.shown _ row hrow hin hbase
    · exact h.shown k r hr hin hbase
  · intro k ho
    show (s.tables.withRow { row with state, attempts }).requests.get k ≠ none
    rw [hget]
    split_ifs
    · simp
    · exact h.known k ho

/-- A row is added when no row is active. -/
theorem Rows.admitted (h : Rows s) {command : ApiRequest} {target : Node} {tables : Tables}
    {w : World} (hfree : s.running = none)
    (htarget : targetOf H.deployment s.thread command = .ok target)
    (hstore : storeAccept s.tables s.thread.world command target s.thread.checkpointId =
      .ok (row, tables, w)) :
    Rows { s with
      tables, thread := { s.thread with world := w }, log := s.log ++ [.admitted row] } := by
  obtain ⟨rfl, hidle, hget, -⟩ := storeAccept_ok hstore
  -- The new row, or one from before.
  have hcases : ∀ k r, tables.requests.get k = some r →
      (k = command.requestId ∧ r = ⟨command, target, s.thread.checkpointId, .pending, 0⟩) ∨
        s.tables.requests.get k = some r := by
    intro k r hr
    rw [hget] at hr
    split_ifs at hr with hk
    · exact .inl ⟨hk, (Option.some.inj hr).symm⟩
    · exact .inr hr
  have htarget := targetOf_ok htarget
  unfold Target at htarget
  refine ⟨⟨?_, ?_⟩, ⟨h.shape.interrupt, h.shape.waits, h.shape.answered⟩,
    fun _ => h.given (outside_of_free hfree), ?_, ?_, ?_, ?_, ?_, ?_⟩
  · intro k r hr
    rcases hcases k r hr with ⟨rfl, rfl⟩ | hr
    · rfl
    · exact h.keyed k r hr
  · intro record phase hr
    simp [hfree] at hr
  · -- One active row: there was none.
    intro k k' r r' hr hr' ha ha'
    rcases hcases k r hr with ⟨rfl, -⟩ | hr
    · rcases hcases k' r' hr' with ⟨rfl, -⟩ | hr'
      · rfl
      · exact absurd ha' (by simp [hidle k' r' hr'])
    · exact absurd ha (by simp [hidle k r hr])
  · intro k r hr
    rcases hcases k r hr with ⟨rfl, rfl⟩ | hr
    · exact ⟨_, List.mem_append_right _ (List.mem_singleton_self _), rfl, rfl, rfl⟩
    · obtain ⟨r₀, hr₀, hsame⟩ := h.logged k r hr
      exact ⟨r₀, List.mem_append_left _ hr₀, hsame⟩
  · -- The new row aims at the node that waits, and at its checkpoint.
    intro k r hr
    rcases hcases k r hr with ⟨rfl, rfl⟩ | hr
    · unfold RequestRow.Aimed
      dsimp only
      cases hin : command.input with
      | start =>
        rw [hin] at htarget
        exact htarget.1
      | resume interruptId signal =>
        rw [hin] at htarget
        exact ⟨htarget.1, (h.shape.interrupt _ htarget.2.1).symm⟩
    · exact h.aimed k r hr
  · intro k r hr
    rcases hcases k r hr with ⟨rfl, rfl⟩ | hr
    · exact le_rfl
    · exact h.bounded k r hr
  · intro k r hr hin hbase
    rcases hcases k r hr with ⟨rfl, rfl⟩ | hr
    · -- A signal is admitted while its interrupt is open.
      dsimp only at hin ⊢
      cases hinput : command.input with
      | start => exact absurd hinput hin
      | resume interruptId signal =>
        rw [hinput] at htarget
        simp [htarget.2.1]
    · exact h.shown k r hr hin hbase
  · intro k ho
    show tables.requests.get k ≠ none
    rw [hget]
    split_ifs
    · simp
    · exact h.known k ho

/-- Taking an input keeps the shape of a thread, and its checkpoint does not go back. -/
theorem Shape.put {t : Thread} (h : Shape t) (owner : Owner) (input : Input) :
    Shape (t.put owner input) ∧ t.checkpointId ≤ (t.put owner input).checkpointId := by
  cases input with
  | turn turn =>
    refine ⟨⟨nofun, fun hint => absurd rfl hint, fun hans => absurd rfl hans⟩, Nat.le_succ _⟩
  | resume interruptId value =>
    by_cases hint : t.interrupt = some interruptId
    · rw [t.put_answer hint]
      exact ⟨⟨h.interrupt, h.waits, fun _ => by simp [hint]⟩, le_rfl⟩
    · rw [show t.put owner (.resume interruptId value) = t from if_neg hint]
      exact ⟨h, le_rfl⟩
  | pending => exact ⟨h, le_rfl⟩

/-- So does the end of an attempt. -/
theorem Shape.ended {t : Thread} (h : Shape t) (took : Bool) (w : World) :
    Shape { t.ended took with world := w } := by
  refine ⟨h.interrupt, h.waits, fun hans => h.answered ?_⟩
  have hans : (t.ended took).answer? ≠ none := hans
  rcases t.ended_answer? took with he | he
  · rwa [he] at hans
  · exact absurd he hans

/-- Taking an input keeps an interrupt that is shown, as long as the checkpoint stays. -/
theorem put_interrupt {t : Thread} {owner : Owner} {input : Input}
    (hcp : (t.put owner input).checkpointId = t.checkpointId) :
    (t.put owner input).interrupt = t.interrupt := by
  cases input with
  | turn turn => exact absurd hcp (Nat.succ_ne_self _)
  | resume interruptId value =>
    unfold Thread.put
    dsimp only
    split_ifs <;> rfl
  | pending => rfl

/-- Taking an input leaves the recorded owner. -/
theorem put_invocationOwner (t : Thread) (owner : Owner) (input : Input) :
    (t.put owner input).values.invocationOwner = t.values.invocationOwner := by
  cases input with
  | turn turn => rfl
  | resume interruptId value =>
    unfold Thread.put
    dsimp only
    split_ifs <;> rfl
  | pending => rfl

/-- A receipt is added in a request's own call. -/
theorem stamps?_eq_some {call : Call} {n : Node} {v : SessionState} {a : ApiAction}
    (h : stamps? (call.config H) n v = some a) :
    ∃ record, call = .api record ∧ a = record.action H ∧ n = record.targetNode ∧
      n.isInput = true ∧ v.apiReceipts record.command.requestId = none := by
  unfold stamps? at h
  obtain ⟨ha, hcond⟩ := Option.filter_eq_some_iff.mp h
  cases call with
  | executor d => exact absurd ha (by simp [Call.config])
  | api record =>
    obtain rfl : record.action H = a := by simpa [Call.config] using ha
    obtain ⟨htarget, hin, hreceipt⟩ : _ ∧ _ ∧ _ := by simpa using hcond
    exact ⟨record, rfl, rfl, htarget.symm, hin, hreceipt⟩

/-- A node leaves the request that is the recorded owner, or makes it that of the call. -/
theorem Completed.owner_api {call : Call} {n : Node} {resume : Option Resume}
    {before after : SessionState} {k : Uuid}
    (hc : Completed (call.config H) n resume before after)
    (ho : after.invocationOwner = some (some (.api k))) :
    (stamps? (call.config H) n before = none ∧ n ≠ .beginTask ∧
        before.invocationOwner = some (some (.api k))) ∨
      ∃ record, call = .api record ∧ record.command.requestId = k ∧ n = record.targetNode := by
  rw [hc.owner] at ho
  cases hst : stamps? (call.config H) n before with
  | some a =>
    obtain ⟨record, rfl, rfl, rfl, -⟩ := stamps?_eq_some hst
    exact .inr ⟨record, rfl, by simpa [hst, RequestRow.action] using ho, rfl⟩
  | none =>
    have hafter : ownerAfter n resume before.invocationOwner = some (some (.api k)) := by
      simpa [hst] using ho
    unfold ownerAfter at hafter
    split at hafter
    · exact absurd hafter (by simp)
    · exact absurd hafter (by simp)
    · rename_i hbegin _
      exact .inl ⟨rfl, hbegin, hafter⟩

/-- A step keeps the rows in order. -/
theorem Move.rows (h : Rows s) (hmove : Move H s left s') : Rows s' := by
  -- An `ainvoke` takes its input and leaves the rows.
  have hput : ∀ call phase input, s.running = some (call, phase) → Rows (s.invoke call input) := by
    intro call phase input hrun
    obtain ⟨hshape, hcp⟩ := h.shape.put call.owner input
    refine h.carry rfl (fun e he => List.mem_append_left _ he) hcp ?_ hshape
      (fun hout => absurd rfl (hout call)) (fun hid hint => ?_) fun k ho => .inl ?_
    · intro record phase' hr
      obtain ⟨rfl, -⟩ := Prod.mk.inj (Option.some.inj hr)
      exact ⟨phase, hrun⟩
    · show (s.thread.put call.owner input).interrupt ≠ none
      rwa [put_interrupt hid]
    · rw [← put_invocationOwner s.thread call.owner input]
      exact ho
  cases hmove with
  | free cleanups log hout hlog =>
    refine h.rest hout rfl (fun e he => ?_) rfl (fun _ _ hr => absurd hr (by simp))
    rcases hlog with rfl | ⟨d, e', rfl⟩
    · exact he
    · exact List.mem_append_left _ he
  | died =>
    exact h.carry rfl (fun _ he => he) le_rfl (fun _ _ hr => absurd hr (by simp))
      (h.shape.ended false s.thread.world) (fun _ => rfl) (fun _ hint => hint) fun _ ho => .inl ho
  | admitted hfree htarget hstore => exact h.admitted hfree htarget hstore
  | row state attempts hout hrow hactive hstate =>
    exact h.write hout hrow hactive state attempts none fun _ _ hr => absurd hr (by simp)
  | claimed attempts hfree hrow hactive =>
    refine h.write (outside_of_free hfree) hrow hactive .running attempts _
      fun record phase hr => ?_
    obtain ⟨hr, -⟩ := Prod.mk.inj (Option.some.inj hr)
    exact ⟨(Call.api.inj hr).symm, rfl⟩
  | delivery d hfree =>
    exact h.rest (outside_of_free hfree) rfl (fun _ he => he) rfl
      fun _ _ hr => absurd hr (by simp)
  | nothing hrun =>
    refine h.rest (outside_of_phase hrun (by decide)) rfl (fun _ he => he) rfl
      fun record phase hr => ?_
    obtain ⟨hr, -⟩ := Prod.mk.inj (Option.some.inj hr)
    exact ⟨_, hr ▸ hrun⟩
  | request hrun hinput => exact hput _ _ _ hrun
  | event hrun hinput => exact hput _ _ _ hrun
  | checkpoint phase hrun hnext hok =>
    refine h.carry rfl (fun e he => List.mem_append_left _ he) (Nat.le_succ _)
      (fun record phase hr => ?_)
      ⟨nofun, fun hint => absurd rfl hint, fun hans => absurd rfl hans⟩ (fun _ => rfl)
      (fun hid => absurd hid (Nat.succ_ne_self _)) fun k ho => ?_
    · obtain ⟨rfl, -⟩ := Prod.mk.inj (Option.some.inj hr)
      exact ⟨_, hrun⟩
    · -- A receipt may name the request of this call, whose row is there.
      rcases (superstep_completed hok).1.owner_api ho with ⟨-, -, hsame⟩ | ⟨record, rfl, rfl, -⟩
      · exact .inl hsame
      · exact .inr (by simp [(h.held record _ hrun).1])
  -- The node showed its interrupt because it had no answer.
  | @interrupt call n svc e hrun hnext hkind hresume herr =>
    have hanswer : s.thread.kept = none ∧ s.thread.given = none :=
      Option.or_eq_none_iff.mp (Thread.resume_eq_none.mp hresume)
    refine h.carry rfl (fun _ he => he) le_rfl (fun record phase hr => ?_)
      ⟨fun id hid => (Option.some.inj hid).symm, fun _ => ⟨n, hnext, hkind⟩, fun _ => by simp⟩
      (fun _ => hanswer.2) (fun _ _ => by simp) fun _ ho => .inl ho
    obtain ⟨rfl, -⟩ := Prod.mk.inj (Option.some.inj hr)
    exact ⟨_, hrun⟩
  | @broken _ _ _ w took running hrun hnext hw hend =>
    refine h.carry rfl (fun _ he => he) le_rfl (fun record phase hr => ?_)
      (h.shape.ended took w) (fun _ => rfl) (fun _ hint => hint) fun _ ho => .inl ho
    rcases hend with rfl | rfl
    · exact absurd hr (by simp)
    · obtain ⟨rfl, -⟩ := Prod.mk.inj (Option.some.inj hr)
      exact ⟨_, hrun⟩

/-- The rows are sound in every state of a session. -/
theorem rows_reachable (h : (session H).Reachable s) : Rows s := by
  induction h with
  | start hs =>
    obtain rfl := hs
    refine ⟨⟨?_, ?_⟩, ⟨?_, ?_, ?_⟩, ?_, ?_, ?_, ?_, ?_, ?_, ?_⟩ <;> simp [Thread.answer?]
  | next _ _ hstep ih => exact (step_move ih.toHeld hstep).rows ih

/-- What holds of the runs of the graph holds of the thread of every session. -/
theorem graph_reachable (h : (session H).Reachable s) :
    (sessionGraph H.deployment).Reachable s.thread.toGraphState := by
  induction h with
  | start hs =>
    obtain rfl := hs
    exact .start rfl
  | next hr _ hstep ih =>
    rcases (step_move (rows_reachable hr).toHeld hstep).graph with hg | ⟨a, ha⟩
    · rw [hg]
      exact ih
    · exact .next ih trivial ha

end

/-! ## The owner of the pending work -/

/-- The input of a request is there and no node has returned from it: its target is next, and its
receipt is missing. -/
structure Awaits (D : Deployment) (t : Thread) (row : RequestRow) : Prop where
  next : t.next = some row.targetNode
  receipt : t.values.apiReceipts row.command.requestId = none
  input : match row.command.input with
    | .start => t.values.turn = some row.command.turn
    | .resume interruptId signal => t.resume = some signal.toResume ∧
        validateResumeSnapshot D t row.command.turn interruptId signal = .ok row.targetNode

/-- The pending work of a session belongs to somebody. -/
structure Owned (H : Host) (s : System) : Prop where
  started : s.thread.Unconsumed → s.thread.source ≠ none
  /-- A request whose input no node has returned from is active. -/
  request : ∀ k, s.thread.Unconsumed → s.thread.source = some (.api k) →
    ∃ row, s.tables.requests.get k = some row ∧ row.state.isActive = true ∧
      Awaits H.deployment s.thread row
  /-- A delivery whose event answers the wait is in the graph, and the event is not stored. -/
  event : ∀ c, s.thread.Unconsumed → s.thread.source = some (.executor c) →
    ∃ d, s.running = some (.executor d, .looping) ∧ d.commandId = c ∧
      s.thread.next = some .waitExternalSignal ∧ s.thread.resume = some (.worker d.action) ∧
      s.thread.kept = none
  /-- An active request is the recorded owner only of work that goes back to its own input. -/
  owner : ∀ k row, s.thread.next ≠ some .beginTask →
    s.thread.values.invocationOwner = some (some (.api k)) →
    s.tables.requests.get k = some row → row.state.isActive = true →
    s.thread.starter = some (.api k)

section

variable {H : Host} {s s' : System} {left : Option Owner} {row : RequestRow}

/-- While its input is there, a request is neither applied nor refused. -/
theorem Awaits.not_settled {t : Thread} (h : Awaits H.deployment t row) (haim : row.Aimed) :
    ¬Settled H t row := by
  have hacc : accepted H t row = .ok false := by simp [accepted, h.receipt]
  have hinvoke : ∃ input, nextInvocation H t row = .ok (some input) := by
    have hinput := h.input
    unfold RequestRow.Aimed at haim
    unfold nextInvocation
    rw [hacc]
    dsimp only
    cases hin : row.command.input with
    | start =>
      rw [hin] at hinput haim
      exact ⟨.pending, by simp [startInvocation, h.next, show row.targetNode = .beginTask from haim,
        show t.values.turn = some row.command.turn from hinput]⟩
    | resume interruptId signal =>
      rw [hin] at hinput
      obtain ⟨-, hvalid⟩ := hinput
      obtain ⟨hint, -⟩ := validateResumeSnapshot_ok hvalid
      exact ⟨_, by simp [resumeInvocation, hint, hvalid]; rfl⟩
  obtain ⟨input, hinvoke⟩ := hinvoke
  rintro (h | ⟨e, h⟩)
  · rw [hacc] at h
    exact absurd h (by simp)
  · rw [hinvoke] at h
    exact absurd h (by simp)

/-- An input looks at the checkpoint, at its interrupt and at the answer to it. -/
theorem Awaits.carry {D : Deployment} {t t' : Thread} {row' : RequestRow} (h : Awaits D t row)
    (hsame : SameRequest row row') (hvalues : t'.values = t.values) (hnext : t'.next = t.next)
    (hint : t'.interrupt = t.interrupt) (hanswer : t'.answer? = t.answer?) : Awaits D t' row' := by
  refine ⟨?_, ?_, ?_⟩
  · rw [hnext, hsame.target]
    exact h.next
  · rw [hvalues, hsame.command]
    exact h.receipt
  · have hinput := h.input
    rw [hsame.command]
    cases hin : row.command.input with
    | start =>
      rw [hin] at hinput
      simpa [hvalues] using hinput
    | resume interruptId signal =>
      rw [hin] at hinput
      dsimp only at hinput ⊢
      rw [hsame.target, validateResumeSnapshot_congr hvalues hnext hint]
      exact ⟨by rw [Thread.resume, hanswer]; exact hinput.1, hinput.2⟩

/-- Where a turn has not begun, no interrupt is answered. -/
theorem Shape.answer?_eq_none {t : Thread} (h : Shape t) (hnext : t.next = some .beginTask) :
    t.answer? = none := by
  by_contra hans
  obtain ⟨n, hn, hkind⟩ := h.waits (h.answered hans)
  obtain rfl : n = .beginTask := Option.some.inj (hn.symm.trans hnext)
  exact hkind rfl

/-- If an input outlives an attempt, then with the answer there was. -/
theorem Shape.answer?_ended {t : Thread} (h : Shape t) {took : Bool}
    (hu : (t.ended took).Unconsumed) : (t.ended took).answer? = t.answer? := by
  rcases hu with hr | hb
  · exact (t.ended_answer? took).resolve_right fun he => hr (Thread.resume_eq_none.mpr he)
  · have hnone := h.answer?_eq_none hb
    rcases t.ended_answer? took with he | he
    · exact he
    · rw [he, hnone]

/-- The event of a delivery is left behind when the call ends with the answer taken. -/
theorem Owned.openInput? (h : Owned H s) {c : Uuid} (hu : s.thread.Unconsumed)
    (hsource : s.thread.source = some (.executor c)) :
    s.openInput? true = some (.executor c) := by
  obtain ⟨d, hrun, -, hnext, hresume, -⟩ := h.event c hu hsource
  obtain ⟨a, ha, -⟩ := Option.map_eq_some_iff.mp hresume
  have hgiver : some a.giver = some (.executor c) := by simpa [Thread.source, ha] using hsource
  simp [System.openInput?, hrun, hnext, ha, hgiver]

/-- A call has ended, or the rows have changed, and no event of a delivery was left behind. -/
theorem Owned.carry (h : Owned H s) (hrows : Rows s) (took : Bool) {w : World}
    (hthread : s'.thread = { s.thread.ended took with world := w })
    (hopen : ∀ c, s.openInput? took ≠ some (.executor c))
    (hkept : ∀ k row, s.tables.requests.get k = some row → row.state.isActive = true →
      ¬Settled H s.thread row → ∃ row', s'.tables.requests.get k = some row' ∧
        row'.state.isActive = true ∧ SameRequest row row')
    (hback : ∀ k row', s'.tables.requests.get k = some row' → row'.state.isActive = true →
      s.tables.requests.get k ≠ none →
      ∃ row, s.tables.requests.get k = some row ∧ row.state.isActive = true) :
    Owned H s' := by
  -- An input that is still there is the one that was there.
  have hsame : s'.thread.Unconsumed → s'.thread.answer? = s.thread.answer? := by
    rw [hthread]
    exact fun hu => hrows.shape.answer?_ended hu
  have hu : s'.thread.Unconsumed → s.thread.Unconsumed := by
    intro hu
    rcases hu with hr | hb
    · refine .inl fun hnone => hr ?_
      rw [Thread.resume_eq_none] at hnone ⊢
      rw [hsame (.inl hr), hnone]
    · rw [hthread] at hb
      exact .inr hb
  have hsource : s'.thread.Unconsumed → s'.thread.source = s.thread.source := by
    intro h'
    unfold Thread.source
    rw [hsame h', hthread]
    rfl
  refine ⟨fun h' => ?_, fun k h' hst => ?_, fun c h' hst => ?_, fun k row' hn ho hr ha => ?_⟩
  · rw [hsource h']
    exact h.started (hu h')
  · rw [hsource h'] at hst
    obtain ⟨row, hrow, hactive, haw⟩ := h.request k (hu h') hst
    obtain ⟨row', hrow', hactive', hreq⟩ := hkept k row hrow hactive
      (haw.not_settled (hrows.aimed k row hrow))
    exact ⟨row', hrow', hactive', haw.carry hreq (by rw [hthread]; rfl) (by rw [hthread]; rfl)
      (by rw [hthread]; rfl) (hsame h')⟩
  · rw [hsource h'] at hst
    obtain ⟨d, -, -, hnext, hresume, hkept⟩ := h.event c (hu h') hst
    -- The answer of a delivery stays only where it was taken.
    cases took with
    | true => exact absurd (h.openInput? (hu h') hst) (hopen c)
    | false =>
      have hnone : s'.thread.answer? = none := by
        rw [hthread]
        simp [Thread.answer?, Thread.ended, hkept]
      rw [hsame h'] at hnone
      rw [Thread.resume_eq_none.mpr hnone] at hresume
      exact absurd hresume (by simp)
  · rw [hthread] at hn ho ⊢
    obtain ⟨row, hrow, hactive⟩ := hback k row' hr ha (hrows.known k ho)
    exact h.owner k row hn ho hrow hactive

/-- A request is itself. -/
theorem SameRequest.refl (r : RequestRow) : SameRequest r r := ⟨rfl, rfl, rfl⟩

/-- Outside of the graph, the rows may change without the thread. -/
theorem Owned.rest (h : Owned H s) (hrows : Rows s) (hout : s.Outside) {w : World}
    (hthread : s'.thread = { s.thread with world := w })
    (hkept : ∀ k row, s.tables.requests.get k = some row → row.state.isActive = true →
      ¬Settled H s.thread row → ∃ row', s'.tables.requests.get k = some row' ∧
        row'.state.isActive = true ∧ SameRequest row row')
    (hback : ∀ k row', s'.tables.requests.get k = some row' → row'.state.isActive = true →
      s.tables.requests.get k ≠ none →
      ∃ row, s.tables.requests.get k = some row ∧ row.state.isActive = true) :
    Owned H s' :=
  h.carry hrows false (w := w) (by rw [hthread, Thread.ended_false (hrows.given hout)])
    (fun c => by simp [openInput?_eq_none hout]) hkept hback

/-- The rows after an active one is written back. -/
theorem kept_withRow (hrow : s.tables.requests.get row.command.requestId = some row)
    (hactive : row.state.isActive = true) (state : RequestState) (attempts : ℕ)
    (hstate : state.isActive = false → Settled H s.thread row) :
    (∀ k r, s.tables.requests.get k = some r → r.state.isActive = true → ¬Settled H s.thread r →
      ∃ r', (s.tables.withRow { row with state, attempts }).requests.get k = some r' ∧
        r'.state.isActive = true ∧ SameRequest r r') ∧
    ∀ k r', (s.tables.withRow { row with state, attempts }).requests.get k = some r' →
      r'.state.isActive = true → ∃ r, s.tables.requests.get k = some r ∧
        r.state.isActive = true := by
  refine ⟨fun k r hr ha hns => ?_, fun k r' hr ha => ?_⟩
  · rw [get_withRow hrow]
    by_cases hk : k = row.command.requestId
    · obtain rfl : r = row := by rw [hk, hrow] at hr; exact (Option.some.inj hr).symm
      refine ⟨_, if_pos hk, ?_, rfl, rfl, rfl⟩
      cases hs : state.isActive with
      | true => rfl
      | false => exact absurd (hstate hs) hns
    · exact ⟨r, by rw [if_neg hk, hr], ha, .refl r⟩
  · rw [get_withRow hrow] at hr
    split_ifs at hr with hk
    · exact ⟨row, hk ▸ hrow, hactive⟩
    · exact ⟨r', hr, ha⟩

/-- The nodes that take input are `begin_task` and those that wait for an answer. -/
theorem isInput_iff {n : Node} : n.isInput = true ↔ n = .beginTask ∨ interruptKind n ≠ none := by
  cases n <;> simp [Node.isInput, interruptKind]

/-- A node that takes input completes only on one that is there. -/
theorem unconsumed_of_input {config : Config} {n : Node} {after : SessionState}
    (hnext : s.thread.next = some n) (hin : n.isInput = true)
    (hc : Completed config n s.thread.resume s.thread.values after) : s.thread.Unconsumed := by
  rcases isInput_iff.mp hin with rfl | hkind
  · exact .inr hnext
  · exact .inl (hc.answered hkind)

/-- The target of an admitted request takes input. -/
theorem RequestRow.Aimed.isInput (h : row.Aimed) : row.targetNode.isInput = true := by
  unfold RequestRow.Aimed at h
  rw [isInput_iff]
  cases hin : row.command.input with
  | start =>
    rw [hin] at h
    exact .inl h
  | resume interruptId signal =>
    rw [hin] at h
    exact .inr h.1

/-- In the call of a request, an input that is there is the request's own. -/
theorem Owned.source_of_api (h : Owned H s) (hrows : Rows s) {record : RequestRow} {phase : Phase}
    (hrun : s.running = some (.api record, phase)) (hu : s.thread.Unconsumed) :
    s.thread.source = some (.api record.command.requestId) ∧
      Awaits H.deployment s.thread record := by
  obtain ⟨hrow, hstate⟩ := hrows.held record phase hrun
  have hactive : record.state.isActive = true := by rw [hstate]; rfl
  cases hst : s.thread.source with
  | none => exact absurd hst (h.started hu)
  | some o =>
    cases o with
    | api k =>
      obtain ⟨row, hr, ha, haw⟩ := h.request k hu hst
      obtain rfl := hrows.single _ _ _ _ hr hrow ha hactive
      obtain rfl := Option.some.inj (hr.symm.trans hrow)
      exact ⟨rfl, haw⟩
    | executor c =>
      obtain ⟨d, hd, -⟩ := h.event c hu hst
      rw [hrun] at hd
      exact absurd hd (by simp)

/-- A request whose input is consumed in its own call gets its receipt. -/
theorem stamps?_of_awaits {record : RequestRow} {n : Node}
    (haim : record.Aimed) (haw : Awaits H.deployment s.thread record)
    (hnext : s.thread.next = some n) :
    stamps? ((Call.api record).config H) n s.thread.values = some (record.action H) := by
  obtain rfl : record.targetNode = n := Option.some.inj (haw.next.symm.trans hnext)
  have hinput := haim.isInput
  simp [stamps?, Call.config, RequestRow.action, hinput, haw.receipt]

/-- Work that no input is pending for goes back to the starter. -/
theorem Thread.source_of_consumed {t : Thread} (h : ¬t.Unconsumed) : t.source = t.starter := by
  have hnone : t.answer? = none := by
    by_contra hans
    exact h (.inl fun hr => hans (Thread.resume_eq_none.mp hr))
  simp [Thread.source, hnone]

/-- After a node, work that an active request owns goes back to its own input. -/
theorem Owned.owner_checkpoint (h : Owned H s) (hrows : Rows s) {call : Call} {n : Node}
    {after : SessionState} {k : Uuid} (hrun : s.running = some (call, .looping))
    (hnext : s.thread.next = some n)
    (hc : Completed (call.config H) n s.thread.resume s.thread.values after)
    (ho : after.invocationOwner = some (some (.api k)))
    (hrow : s.tables.requests.get k = some row) (hactive : row.state.isActive = true) :
    s.thread.source = some (.api k) := by
  rcases hc.owner_api ho with ⟨hst, hbegin, hsame⟩ | ⟨record, rfl, rfl, rfl⟩
  · by_cases hu : s.thread.Unconsumed
    · cases call with
      | api record =>
        -- The request's own input would have been stamped.
        obtain ⟨-, haw⟩ := h.source_of_api hrows hrun hu
        have haim := hrows.aimed _ _ (hrows.held record _ hrun).1
        rw [stamps?_of_awaits haim haw hnext] at hst
        exact absurd hst (by simp)
      | executor d =>
        cases hsource : s.thread.source with
        | none => exact absurd hsource (h.started hu)
        | some o =>
          cases o with
          | api k' =>
            -- One request at most is active.
            obtain ⟨row', hr, ha, -⟩ := h.request k' hu hsource
            rw [hrows.single _ _ _ _ hr hrow ha hactive]
          | executor c =>
            obtain ⟨d', -, -, hwait, hresume, -⟩ := h.event c hu hsource
            obtain rfl : Node.waitExternalSignal = n := Option.some.inj (hwait.symm.trans hnext)
            rw [hc.owner, hst, hresume] at ho
            exact absurd ho (by simp [ownerAfter])
    · rw [Thread.source_of_consumed hu]
      exact h.owner k row (fun hb => hbegin (Option.some.inj (hnext.symm.trans hb))) hsame hrow
        hactive
  · have haim := hrows.aimed _ _ (hrows.held record _ hrun).1
    exact (h.source_of_api hrows hrun (unconsumed_of_input hnext haim.isInput hc)).1

/-- An answer that is given behind one that is kept does not reach the node. -/
theorem Thread.answer?_given (t : Thread) (a : Answer) :
    ({ t with given := some a } : Thread).answer? = if t.kept = none then some a
      else t.answer? := by
  cases hk : t.kept <;> simp [Thread.answer?, hk]

/-- An answer that is given behind a kept one changes nothing. -/
theorem Owned.behind (h : Owned H s) {a : Answer}
    (hthread : s'.thread = { s.thread with given := some a }) (hk : s.thread.kept ≠ none)
    (hreq : s'.tables.requests = s.tables.requests) : Owned H s' := by
  have hans : s'.thread.answer? = s.thread.answer? := by
    rw [hthread, Thread.answer?_given, if_neg hk]
  have hu : s'.thread.Unconsumed → s.thread.Unconsumed := by
    rintro (hr | hb)
    · exact .inl (by rwa [Thread.resume, hans] at hr)
    · rw [hthread] at hb
      exact .inr hb
  have hsource : s'.thread.source = s.thread.source := by
    rw [Thread.source, hans, hthread]
    rfl
  refine ⟨fun h' => ?_, fun k h' hst => ?_, fun c h' hst => ?_, ?_⟩
  · rw [hsource]
    exact h.started (hu h')
  · rw [hsource] at hst
    obtain ⟨row, hr, ha, haw⟩ := h.request k (hu h') hst
    refine ⟨row, hreq ▸ hr, ha, haw.carry (.refl row) ?_ ?_ ?_ hans⟩ <;> rw [hthread]
  · rw [hsource] at hst
    obtain ⟨d, -, -, -, -, hnone⟩ := h.event c (hu h') hst
    exact absurd hnone hk
  · rw [hthread, hreq]
    exact h.owner

/-- A request gives its input, or goes on with what is pending. -/
theorem Owned.request_invoke (h : Owned H s) (hrows : Rows s) {record : RequestRow} {input : Input}
    (hrun : s.running = some (.api record, .deciding)) (hdec : Decided H s.thread record input) :
    Owned H (s.invoke (.api record) input) := by
  obtain ⟨hrow, hstate⟩ := hrows.held record _ hrun
  have hactive : record.state.isActive = true := by rw [hstate]; rfl
  have hout : s.Outside := outside_of_phase hrun (by decide)
  -- A request that gives nothing new goes on under the same owners.
  have hpending : Owned H (s.invoke (.api record) .pending) :=
    h.rest (w := s.thread.world) hrows hout rfl (fun k row hr ha _ => ⟨row, hr, ha, .refl row⟩)
      fun k row hr ha _ => ⟨row, hr, ha⟩
  have haim := hrows.aimed _ _ hrow
  unfold RequestRow.Aimed at haim
  cases hdec with
  | own hreceipt hown => exact hpending
  | begun hreceipt hin hnext hturn => exact hpending
  | stored hreceipt hin hint hnext hbase => exact hpending
  -- A `START` is given by its own request, which aims at the first node.
  | start hreceipt hin hnext hbase =>
    rw [hin] at haim
    refine ⟨fun _ => by simp [System.invoke, Thread.put, Thread.source], fun k _ hst => ?_,
      fun c _ hst => ?_, fun k row hn => absurd rfl hn⟩
    · obtain rfl : record.command.requestId = k := by
        simpa [System.invoke, Thread.put, Thread.source, Thread.answer?, Call.owner] using hst
      refine ⟨record, hrow, hactive, ?_, hreceipt, ?_⟩
      · rw [show record.targetNode = .beginTask from haim]
        rfl
      · rw [hin]
        rfl
    · exact absurd hst
        (by simp [System.invoke, Thread.put, Thread.source, Thread.answer?, Call.owner])
  -- An answer is seen unless an earlier one is kept at the node.
  | @answer interruptId signal hreceipt hin hvalid =>
    obtain ⟨hint, hnext, -⟩ := validateResumeSnapshot_ok hvalid
    have hthread : (s.invoke (.api record) (.resume interruptId signal.toResume)).thread =
        { s.thread with given := some ⟨signal.toResume, .api record.command.requestId⟩ } :=
      s.thread.put_answer hint
    by_cases hk : s.thread.kept = none
    · have hans : (s.invoke (.api record) (.resume interruptId signal.toResume)).thread.answer? =
          some ⟨signal.toResume, .api record.command.requestId⟩ := by
        rw [hthread, Thread.answer?_given, if_pos hk]
      refine ⟨fun _ => by simp [Thread.source, hans], fun k _ hst => ?_, fun c _ hst => ?_, ?_⟩
      · obtain rfl : record.command.requestId = k := by simpa [Thread.source, hans] using hst
        refine ⟨record, hrow, hactive, ?_, ?_, ?_⟩
        · rw [hthread]
          exact hnext
        · rw [hthread]
          exact hreceipt
        · rw [hin]
          refine ⟨by rw [Thread.resume, hans]; rfl, ?_⟩
          rw [hthread]
          exact hvalid
      · exact absurd hst (by simp [Thread.source, hans])
      · rw [hthread]
        exact h.owner
    · exact h.behind hthread hk rfl

/-- A delivery gives its event, or goes on with pending nodes. -/
theorem Owned.event_invoke (h : Owned H s) (hrows : Rows s) {d : Delivery} {input : Input}
    (hrun : s.running = some (.executor d, .deciding)) (hans : Answered d s.thread input) :
    Owned H (s.invoke (.executor d) input) := by
  cases hans with
  | own howner hint htask =>
    exact h.rest (w := s.thread.world) hrows (outside_of_phase hrun (by decide)) rfl
      (fun k row hr ha _ => ⟨row, hr, ha, .refl row⟩) fun k row hr ha _ => ⟨row, hr, ha⟩
  | @event interruptId hreceipt htask hexecution hint hnext =>
    have hthread : (s.invoke (.executor d) (.resume interruptId (.worker d.action))).thread =
        { s.thread with given := some ⟨.worker d.action, .executor d.commandId⟩ } :=
      s.thread.put_answer hint
    by_cases hk : s.thread.kept = none
    · have hgiven :
        (s.invoke (.executor d) (.resume interruptId (.worker d.action))).thread.answer? =
          some ⟨.worker d.action, .executor d.commandId⟩ := by
        rw [hthread, Thread.answer?_given, if_pos hk]
      refine ⟨fun _ => by simp [Thread.source, hgiven],
        fun k _ hst => absurd hst (by simp [Thread.source, hgiven]), fun c _ hst => ?_, ?_⟩
      · obtain rfl : d.commandId = c := by simpa [Thread.source, hgiven] using hst
        refine ⟨d, rfl, rfl, ?_, by rw [Thread.resume, hgiven]; rfl, ?_⟩
        · rw [hthread]
          exact hnext
        · rw [hthread]
          exact hk
      · rw [hthread]
        exact h.owner
    · exact h.behind hthread hk rfl

/-- Every move keeps the owners, unless a delivery leaves its event behind. -/
theorem Move.owned (h : Owned H s) (hrows : Rows s) (hmove : Move H s left s')
    (hleft : ∀ c, left ≠ some (.executor c)) : Owned H s' := by
  have hsame : ∀ k row, s.tables.requests.get k = some row → row.state.isActive = true →
      ¬Settled H s.thread row → ∃ row', s.tables.requests.get k = some row' ∧
        row'.state.isActive = true ∧ SameRequest row row' :=
    fun k row hr ha _ => ⟨row, hr, ha, .refl row⟩
  have hback : ∀ k row, s.tables.requests.get k = some row → row.state.isActive = true →
      s.tables.requests.get k ≠ none →
      ∃ row, s.tables.requests.get k = some row ∧ row.state.isActive = true :=
    fun k row hr ha _ => ⟨row, hr, ha⟩
  cases hmove with
  | free cleanups log hout hlog =>
    exact h.rest (w := s.thread.world) hrows hout rfl hsame hback
  | died => exact h.carry (w := s.thread.world) hrows false rfl hleft hsame hback
  | @admitted command target tables w row hfree htarget hstore =>
    have hnew := storeAccept_new hstore
    obtain ⟨rfl, hinactive, hget, -⟩ := storeAccept_ok hstore
    refine h.rest hrows (outside_of_free hfree) rfl
      (fun k row hr ha _ => absurd ha (by simp [hinactive k row hr])) fun k row hr ha hold => ?_
    rw [hget] at hr
    split_ifs at hr with hk
    · exact absurd hnew (hk ▸ hold)
    · exact ⟨row, hr, ha⟩
  | row state attempts hout hrow hactive hstate =>
    obtain ⟨hkept, hkept'⟩ := kept_withRow hrow hactive state attempts hstate
    exact h.rest (w := s.thread.world) hrows hout rfl hkept fun k row hr ha _ => hkept' k row hr ha
  | claimed attempts hfree hrow hactive =>
    obtain ⟨hkept, hkept'⟩ := kept_withRow hrow hactive .running attempts
      fun hs => absurd hs (by decide)
    exact h.rest (w := s.thread.world) hrows (outside_of_free hfree) rfl hkept
      fun k row hr ha _ => hkept' k row hr ha
  | delivery d hfree =>
    exact h.rest (w := s.thread.world) hrows (outside_of_free hfree) rfl hsame hback
  | nothing hrun =>
    exact h.rest (w := s.thread.world) hrows (outside_of_phase hrun (by decide)) rfl hsame hback
  | request hrun hinput => exact h.request_invoke hrows hrun (nextInvocation_decided hinput)
  | event hrun hinput => exact h.event_invoke hrows hrun (decideDelivery_answered hinput)
  | @checkpoint call n svc after next phase hrun hnext hok =>
    obtain ⟨hc, hsucc⟩ := superstep_completed hok
    -- The input is consumed: no answer is left, and no node leads back to `begin_task`.
    have hbegin : next ≠ some .beginTask := by
      rintro rfl
      exact (successor_targets hsucc).1 rfl
    have hnu : ∀ {t : Thread}, t.resume = none → t.next = next → ¬t.Unconsumed := by
      rintro t hresume hnext' (hr | hb)
      · exact hr hresume
      · exact hbegin (hnext'.symm.trans hb)
    exact ⟨fun hu => absurd hu (hnu rfl rfl), fun k hu => absurd hu (hnu rfl rfl),
      fun c hu => absurd hu (hnu rfl rfl), fun k row _ ho hr ha =>
        h.owner_checkpoint hrows hrun hnext hc ho hr ha⟩
  | @interrupt call n svc e hrun hnext hkind hresume herr =>
    have hnu : ∀ {t : Thread}, t.resume = none → t.next = some n → ¬t.Unconsumed := by
      rintro t hr hn (hr' | hb)
      · exact hr' hr
      · obtain rfl : n = .beginTask := Option.some.inj (hn.symm.trans hb)
        exact hkind rfl
    exact ⟨fun hu => absurd hu (hnu hresume hnext), fun k hu => absurd hu (hnu hresume hnext),
      fun c hu => absurd hu (hnu hresume hnext), h.owner⟩
  | broken took running hrun hnext hw hend => exact h.carry hrows took rfl hleft hsame hback

/-- No step of the run leaves the event of a delivery behind with the wait. -/
def KeepsEvents (H : Host) (s : System) (a : Action) : Prop :=
  ∀ c, abandons H s a ≠ some (.executor c)

instance (H : Host) (s : System) (a : Action) : Decidable (KeepsEvents H s a) :=
  match h : abandons H s a with
  | none => isTrue fun c => by rw [h]; simp
  | some (.api k) => isTrue fun c => by rw [h]; simp
  | some (.executor c) => isFalse fun hk => hk c h

/-- The pending work belongs to somebody in every state of a session whose deliveries do not leave
their events behind. -/
theorem owned_reachable (h : (session H).ReachableWhen (KeepsEvents H) s) : Owned H s := by
  induction h with
  | start hs =>
    obtain rfl := hs
    have hnu : ¬({} : System).thread.Unconsumed := by
      simp [Thread.Unconsumed, Thread.resume, Thread.answer?]
    exact ⟨fun hu => absurd hu hnu, fun _ hu => absurd hu hnu, fun _ hu => absurd hu hnu, by simp⟩
  | next hr hc hstep ih =>
    have hrows := rows_reachable hr.reachable
    exact (step_move hrows.toHeld hstep).owned ih hrows hc

end

end ExAgent.Session
