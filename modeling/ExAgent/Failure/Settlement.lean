import ExAgent.Failure.Recovery
import ExAgent.Session.Ownership

/-!
# Settlements in a session

What a settlement leaves in the checkpoint (`Settled`), and that it is still there in every
reachable state in which the settled Task is the active one (`recorded_reachable`). Between the two
writes of `settle_graph` the tasks are gone and the values are the old ones.
-/

namespace ExAgent.Failure

open Lib ExAgent.Graph
open Session (Host Thread Shape Rows Move)
open Stores (CleanupRow isText)

variable {H : Host} {D : Deployment} {c c' : Checkpoint} {record : CleanupRow} {s s' : Site}

/-! ## Messages -/

/-- The message with an id is there, and it is this one. -/
def Holds (messages : List Message) (m : Message) : Prop :=
  (∃ x ∈ messages, x.id = m.id) ∧ ∀ x ∈ messages, x.id = m.id → x = m

/-- Adding a message that is there changes nothing. -/
theorem Holds.addMessage_eq {messages : List Message} {m : Message} (h : Holds messages m) :
    addMessage messages m = messages := by
  obtain ⟨⟨x, hx, hid⟩, hone⟩ := h
  have hany : (messages.any fun x => x.id = m.id) = true :=
    List.any_eq_true.mpr ⟨x, hx, decide_eq_true hid⟩
  unfold addMessage
  rw [if_pos hany]
  have hmap : ∀ x ∈ messages, (if x.id = m.id then m else x) = x := by
    intro x hx
    split_ifs with hxm
    · exact (hone x hx hxm).symm
    · rfl
  exact (List.map_congr_left hmap).trans (List.map_id _)

/-- A message that was added is there. -/
theorem holds_addMessage (messages : List Message) (m : Message) :
    Holds (addMessage messages m) m := by
  unfold addMessage
  split_ifs with hany
  · obtain ⟨x, hx, hid⟩ := List.any_eq_true.mp hany
    refine ⟨⟨m, List.mem_map.mpr ⟨x, hx, if_pos (of_decide_eq_true hid)⟩, rfl⟩, fun y hy hym => ?_⟩
    obtain ⟨z, -, rfl⟩ := List.mem_map.mp hy
    split_ifs at hym ⊢
    · rfl
    · exact absurd hym ‹_›
  · refine ⟨⟨m, List.mem_append_right _ List.mem_cons_self, rfl⟩, fun y hy hym => ?_⟩
    rcases List.mem_append.mp hy with hy | hy
    · exact absurd (List.any_eq_true.mpr ⟨y, hy, decide_eq_true hym⟩) hany
    · exact List.mem_singleton.mp hy

/-- Another message stays. -/
theorem Holds.addMessage {messages : List Message} {m m' : Message} (h : Holds messages m)
    (hne : m'.id ≠ m.id) : Holds (addMessage messages m') m := by
  obtain ⟨⟨x, hx, hid⟩, hone⟩ := h
  unfold Failure.addMessage
  split_ifs with hany
  · have hxm : x.id ≠ m'.id := fun h => hne (h.symm.trans hid)
    refine ⟨⟨x, List.mem_map.mpr ⟨x, hx, if_neg hxm⟩, hid⟩, fun y hy hym => ?_⟩
    obtain ⟨z, hz, rfl⟩ := List.mem_map.mp hy
    split_ifs at hym ⊢
    · exact absurd hym hne
    · exact hone z hz hym
  · refine ⟨⟨x, List.mem_append_left _ hx, hid⟩, fun y hy hym => ?_⟩
    rcases List.mem_append.mp hy with hy | hy
    · exact hone y hy hym
    · obtain rfl := List.mem_singleton.mp hy
      exact absurd hym hne

/-- The messages of a settlement are there after it. -/
theorem holds_settledMessages (messages : List Message) {m : Message}
    (hm : m ∈ settledMessages record) :
    Holds (addMessages messages (settledMessages record)) m := by
  rcases List.mem_cons.mp hm with rfl | hm
  · exact (holds_addMessage _ _).addMessage nofun
  · obtain rfl := List.mem_singleton.mp hm
    exact holds_addMessage _ _

/-- A second settlement adds none. -/
theorem addMessages_settled {messages : List Message}
    (h : ∀ m ∈ settledMessages record, Holds messages m) :
    addMessages messages (settledMessages record) = messages := by
  unfold addMessages settledMessages
  rw [List.foldl_cons, (h _ List.mem_cons_self).addMessage_eq, List.foldl_cons,
    (h _ (List.mem_cons_of_mem _ List.mem_cons_self)).addMessage_eq, List.foldl_nil]

/-! ## What a settlement leaves -/

/-- The values and the marks are those of the settlement of a record. -/
structure Settled (D : Deployment) (v : SessionState) (m : Marks) (record : CleanupRow) : Prop where
  active : v.activeTaskId = some record.taskId
  identity : v.identity = some (record.turn.userId, record.turn.projectId, record.turn.sessionId)
  execution : v.executionId = record.executionId
  workflow : ∃ wf, v.workflow = some wf ∧ wf.phase = record.finalStatus ∧
    wf.terminalMessage = record.message ∧
    (record.executionId ≠ none → wf.executionId = record.executionId)
  pending : v.ewPending = none
  owner : v.invocationOwner = some none ∧ m.settledBy = some record.taskId
  request : v.taskRequests record.taskId = some (D.fingerprint record.turn)
  receipt : m.failureReceipts record.taskId = record.message
  sequence : ∀ id, record.executionId = some id → v.ewSequences id ≠ none
  messages : ∀ x ∈ settledMessages record, Holds m.messages x

/-- The second write leaves that. -/
theorem settled_settled (D : Deployment) (c : Checkpoint) (record : CleanupRow) :
    Settled D (c.settled D record).values (c.settled D record).toMarks record where
  active := rfl
  identity := rfl
  execution := rfl
  workflow := by
    refine ⟨_, rfl, rfl, rfl, fun hid => ?_⟩
    obtain ⟨id, hid⟩ := Option.ne_none_iff_exists'.mp hid
    simp only [settledWorkflow, hid, Option.some_or]
  pending := rfl
  owner := ⟨rfl, rfl⟩
  request := Function.update_self ..
  receipt := Function.update_self ..
  sequence id hid := by
    simp only [Checkpoint.settled, hid, Function.update_self]
    simp
  messages _ hx := holds_settledMessages _ hx

/-- What is known of a checkpoint with the receipt of a record: as long as its Task is the active
one, only `begin_task` can be next. -/
structure Recorded (D : Deployment) (t : Thread) (m : Marks) (record : CleanupRow) : Prop where
  request : t.values.taskRequests record.taskId ≠ none
  begun : t.values.activeTaskId ≠ none
  settled : t.values.activeTaskId = some record.taskId → Settled D t.values m record ∧
    (t.next = none ∨ t.next = some .beginTask)

/-- A later Task has begun. -/
theorem Recorded.of_other {t : Thread} {m : Marks}
    (hrequest : t.values.taskRequests record.taskId ≠ none)
    {active : Uuid} (hactive : t.values.activeTaskId = some active) (hne : active ≠ record.taskId) :
    Recorded D t m record :=
  ⟨hrequest, by simp [hactive], fun h => absurd (Option.some.inj (hactive.symm.trans h)) hne⟩

/-- The same values, the same marks, and nothing new that is next. -/
theorem Recorded.same {t t' : Thread} {m m' : Marks} (h : Recorded D t m record)
    (hvalues : t'.values = t.values) (hmarks : m' = m)
    (hnext : t'.next = t.next ∨ t'.next = none) : Recorded D t' m' record := by
  subst hmarks
  refine ⟨hvalues ▸ h.request, hvalues ▸ h.begun, fun hactive => ?_⟩
  rw [hvalues] at hactive ⊢
  obtain ⟨hsettled, hidle⟩ := h.settled hactive
  refine ⟨hsettled, ?_⟩
  rcases hnext with hnext | hnext
  · rw [hnext]
    exact hidle
  · exact .inl hnext

/-! ## Steps of the session -/

/-- What a move of the session does to its thread. -/
inductive Turned (H : Host) (t : Thread) : Thread → Prop
  /-- Nothing but the tables and the interrupt. -/
  | same {t' : Thread} (hvalues : t'.values = t.values) (hnext : t'.next = t.next)
      (hid : t'.checkpointId = t.checkpointId) : Turned H t t'
  /-- An input is taken. -/
  | stored (owner : Owner) (input : Session.Input) : Turned H t (t.put owner input)
  /-- A node completes. -/
  | completed {t' : Thread} (config : Config) (n : Node) (svc : Services) (hnext : t.next = some n)
      (hok : (superstep H.deployment config (t.services svc) n t.values t.world).result =
        .ok (t'.values, t'.next)) : Turned H t t'

/-- A move of the session turns its thread in one of the ways. -/
theorem turned_of_move {t t' : Session.System} {left : Option Owner} (h : Move H t left t') :
    Turned H t.thread t'.thread := by
  cases h with
  | free | died | admitted | row | claimed | delivery | nothing | interrupt | broken =>
    exact .same rfl rfl rfl
  | request hrun hinput => exact .stored _ _
  | event hrun hinput => exact .stored _ _
  | checkpoint phase hrun hnext hok => exact .completed _ _ _ hnext hok

/-- The active Task and the fingerprints after a node: `begin_task` takes a Task that is not among
them, and every other node leaves both. -/
theorem completed_active {config : Config} {n : Node} {svc : Services} {v v' : SessionState}
    {w : World} {next : Option Node}
    (hok : (superstep D config svc n v w).result = .ok (v', next)) :
    (n ≠ .beginTask ∧ v'.activeTaskId = v.activeTaskId ∧ v'.taskRequests = v.taskRequests) ∨
      ∃ turn :
    TaskTurn, v'.activeTaskId = some turn.activeTaskId ∧ v.taskRequests turn.activeTaskId = none ∧
        ∀ id, v.taskRequests id ≠ none → v'.taskRequests id ≠ none := by
  by_cases hn : n = .beginTask
  · subst hn
    obtain ⟨turn, hbegun⟩ := superstep_begun hok
    refine .inr ⟨turn, hbegun.active, hbegun.new, fun id hid => ?_⟩
    rw [hbegun.requests]
    by_cases hturn : id = turn.activeTaskId
    · simp [hturn]
    · rwa [Function.update_of_ne hturn]
  · obtain ⟨hc, -⟩ := Session.superstep_completed hok
    exact .inl ⟨hn, hc.active hn, hc.requests hn⟩

/-- A step of the session keeps what is known of a settled Task. -/
theorem Recorded.turned {t t' : Thread} {m : Marks} (h : Recorded D t m record)
    (hturned : Turned H t t') (messages : List Message) :
    Recorded D t' (m.after t t' messages) record := by
  have hmarks : t'.checkpointId = t.checkpointId → m.after t t' messages = m := by
    intro hid
    unfold Marks.after nodeCompleted
    simp [hid]
  cases hturned with
  | same hvalues hnext hid => exact h.same hvalues (hmarks hid) (.inl hnext)
  | stored owner input =>
    cases input with
    | turn turn =>
      have hstart : m.after t (t.put owner (.turn turn)) messages = m := by
        unfold Marks.after nodeCompleted
        simp [Thread.put]
      rw [hstart]
      refine ⟨h.request, h.begun, fun hactive => ?_⟩
      obtain ⟨hsettled, -⟩ := h.settled hactive
      exact ⟨⟨hsettled.active, hsettled.identity, hsettled.execution, hsettled.workflow,
        hsettled.pending, hsettled.owner, hsettled.request, hsettled.receipt, hsettled.sequence,
        hsettled.messages⟩, .inr rfl⟩
    | resume interruptId value =>
      have hput : (t.put owner (.resume interruptId value)).values = t.values ∧
          (t.put owner (.resume interruptId value)).next = t.next ∧
          (t.put owner (.resume interruptId value)).checkpointId = t.checkpointId := by
        unfold Thread.put
        dsimp only
        split_ifs <;> exact ⟨rfl, rfl, rfl⟩
      exact h.same hput.1 (hmarks hput.2.2) (.inl hput.2.1)
    | pending => exact h.same rfl (hmarks rfl) (.inl rfl)
  | completed config n svc hnext hok =>
    rcases completed_active hok with ⟨hn, hactive, hrequests⟩ | ⟨turn, hactive, hnew, hkept⟩
    · -- Only `begin_task` runs behind a settled Task, so another one is active.
      obtain ⟨active, hbegun⟩ := Option.ne_none_iff_exists'.mp h.begun
      have hother : active ≠ record.taskId := by
        rintro rfl
        rcases (h.settled hbegun).2 with hidle | hidle
        · exact absurd (hidle.symm.trans hnext) (by simp)
        · exact hn (Option.some.inj (hnext.symm.trans hidle))
      exact .of_other (hrequests ▸ h.request) (hactive.trans hbegun) hother
    · have hother : turn.activeTaskId ≠ record.taskId := by
        intro heq
        exact h.request (heq ▸ hnew)
      exact .of_other (hkept _ h.request) hactive hother

/-! ## Runs of a settlement -/

/-- A refusal writes nothing. -/
theorem settleGraph_error {e : UnsafeCleanupError} (h : mustSettle D c record = .error e) :
    settleGraph D record c = ⟨[], c, .error e⟩ := by
  unfold settleGraph
  simp only [bind, Prog.andThen, Prog.query, h]

/-- Where there is nothing to write, nothing is written. -/
theorem settleGraph_done (h : mustSettle D c record = .ok false) :
    settleGraph D record c = ⟨[], c, .ok ()⟩ := by
  unfold settleGraph
  simp only [bind, Prog.andThen, Prog.query, h]
  rfl

/-- A settlement is two writes, and succeeds. -/
theorem settleGraph_writes (h : mustSettle D c record = .ok true) :
    settleGraph D record c = ⟨[c.cleared, c.cleared.settled D record],
      c.cleared.settled D record, .ok ()⟩ := by
  unfold settleGraph
  simp only [bind, Prog.andThen, Prog.query, h]
  rfl

/-- Where a settlement can be stopped: at its start, after the first write, after the second. -/
theorem settleGraph_stoppedAt {writes : ℕ}
    (h : (settleGraph D record).stoppedAt c writes = some c') :
    c' = c ∨ mustSettle D c record = .ok true ∧
      (c' = c.cleared ∨ c' = c.cleared.settled D record) := by
  rcases List.mem_cons.mp (List.mem_of_getElem? h) with rfl | hmem
  · exact .inl rfl
  rcases hmust : mustSettle D c record with e | _ | _
  · rw [settleGraph_error hmust] at hmem
    exact absurd hmem List.not_mem_nil
  · rw [settleGraph_done hmust] at hmem
    exact absurd hmem List.not_mem_nil
  · rw [settleGraph_writes hmust] at hmem
    exact .inr ⟨rfl, by simpa using hmem⟩

/-! ## Sessions with cleanups -/

/-- What holds in every state of a session with cleanups: the receipt of a settlement is that of a
confirmed record, and the checkpoint is one that the record's settlement has left, or a later
one. -/
structure Inv (H : Host) (s : Site) : Prop where
  rows : Rows s.session
  keyed : ∀ taskId row, s.records.get taskId = some row → row.taskId = taskId
  recorded : ∀ taskId message, s.marks.failureReceipts taskId = some message →
    ∃ row, s.records.get taskId = some row ∧ row.executorStatus ≠ none ∧
      row.message = some message ∧ Recorded H.deployment s.session.thread s.marks row

/-- Only the state of the record has changed. -/
theorem Recorded.finished {t : Thread} {m : Marks} (h : Recorded D t m record) :
    Recorded D t m { record with state := .done } :=
  ⟨h.request, h.begun, fun hactive =>
    have ⟨hs, hidle⟩ := h.settled hactive
    ⟨⟨hs.active, hs.identity, hs.execution, hs.workflow, hs.pending, hs.owner,
      hs.request, hs.receipt, hs.sequence, hs.messages⟩, hidle⟩⟩

/-- A settlement keeps what is known of other Tasks, wherever it is stopped. -/
theorem Recorded.settle {other : CleanupRow} (h : Recorded D c.toThread c.toMarks other)
    (hne : record.taskId ≠ other.taskId)
    (hstopped : c' = c ∨ c' = c.cleared ∨ c' = c.cleared.settled D record) :
    Recorded D c'.toThread c'.toMarks other := by
  rcases hstopped with rfl | rfl | rfl
  · exact h
  · exact h.same rfl rfl (.inr rfl)
  · refine .of_other ?_ rfl hne
    change Function.update c.values.taskRequests record.taskId _ other.taskId ≠ none
    rw [Function.update_of_ne hne.symm]
    exact h.request

/-- The second write leaves what is to be known of its Task. -/
theorem recorded_settled (D : Deployment) (c : Checkpoint) (record : CleanupRow) :
    Recorded D (c.settled D record).toThread (c.settled D record).toMarks record := by
  have hs := settled_settled D c record
  refine ⟨?_, ?_, fun _ => ⟨hs, .inl rfl⟩⟩
  · rw [hs.request]
    exact Option.some_ne_none _
  · rw [hs.active]
    exact Option.some_ne_none _

/-- A settlement that is stopped keeps the invariant. -/
theorem Inv.settle {taskId : Uuid} (h : Inv H s) (hrow : s.records.get taskId = some record)
    (hstopped : c' = s.checkpoint ∨ mustSettle H.deployment s.checkpoint record = .ok true ∧
      (c' = s.checkpoint.cleared ∨ c' = s.checkpoint.cleared.settled H.deployment record)) :
    Inv H (s.put c') := by
  rcases hstopped with rfl | ⟨hmust, hwritten⟩
  · exact h
  have htask := h.keyed taskId record hrow
  have hproof : record.executorStatus ≠ none ∧ isText record.message = true := by
    unfold mustSettle at hmust
    split_ifs at hmust with hnone
    rw [not_or] at hnone
    exact ⟨hnone.1, by simpa using hnone.2⟩
  -- A new checkpoint has no interrupt, and no answer to one.
  have hshape : c'.interrupt = none ∧ c'.answer? = none ∧ c'.given = none ∧
      s.session.thread.checkpointId < c'.checkpointId := by
    rcases hwritten with rfl | rfl
    · exact ⟨rfl, rfl, rfl, Nat.lt_succ_self _⟩
    · exact ⟨rfl, rfl, rfl, (Nat.lt_succ_self _).trans (Nat.lt_succ_self _)⟩
  have howner : ∀ k, c'.values.invocationOwner = some (some (.api k)) →
      s.session.thread.values.invocationOwner = some (some (.api k)) := by
    intro k ho
    rcases hwritten with rfl | rfl
    · exact ho
    · exact absurd ho (by simp [Checkpoint.settled])
  refine ⟨?_, h.keyed, fun other message hreceipt => ?_⟩
  · refine h.rows.carry rfl (fun _ he => he) hshape.2.2.2.le (fun _ _ hr => ⟨_, hr⟩) ⟨?_, ?_, ?_⟩
      (fun _ => hshape.2.2.1) (fun hid => absurd hid hshape.2.2.2.ne') fun k ho =>
        .inl (howner k ho)
    · intro id hid
      exact absurd (hshape.1.symm.trans hid) (by simp)
    · exact fun hi => absurd hshape.1 hi
    · exact fun ha => absurd hshape.2.1 ha
  · change c'.failureReceipts other = some message at hreceipt
    by_cases hother : other = taskId
    · subst hother
      refine ⟨record, hrow, hproof.1, ?_⟩
      rcases hwritten with rfl | rfl
      · obtain ⟨row, hrow', -, hmessage, hrecorded⟩ := h.recorded other message hreceipt
        obtain rfl := Option.some.inj (hrow.symm.trans hrow')
        exact ⟨hmessage, hrecorded.same rfl rfl (.inr rfl)⟩
      · refine ⟨?_, recorded_settled H.deployment s.checkpoint.cleared record⟩
        rw [← (settled_settled H.deployment s.checkpoint.cleared record).receipt, htask]
        exact hreceipt
    · have hbefore : s.marks.failureReceipts other = some message := by
        rcases hwritten with rfl | rfl
        · exact hreceipt
        · change Function.update s.marks.failureReceipts record.taskId _ other = _ at hreceipt
          rwa [htask, Function.update_of_ne hother] at hreceipt
      obtain ⟨row, hrow', hstatus, hmessage, hrecorded⟩ := h.recorded other message hbefore
      refine ⟨row, hrow', hstatus, hmessage, hrecorded.settle ?_ (.inr hwritten)⟩
      rw [htask, h.keyed other row hrow']
      exact fun heq => hother heq.symm

/-- The rows of the requests of a Task that is finished. -/
theorem rows_closed (h : Rows s.session) (hfree : s.session.running = none) (record : CleanupRow) :
    Rows (s.closed record) := by
  -- Each row is the one before, and none is active that was not.
  have hget : ∀ k r, (s.closed record).tables.requests.get k = some r → ∃ r₀,
      s.session.tables.requests.get k = some r₀ ∧ Session.SameRequest r₀ r ∧
        (r.state.isActive = true → r₀.state.isActive = true) := by
    intro k r hr
    change (compensated record.taskId s.session.tables.requests).get k = some r at hr
    unfold compensated at hr
    rw [Table.get_modify] at hr
    obtain ⟨r₀, hr₀, rfl⟩ := Option.map_eq_some_iff.mp hr
    refine ⟨r₀, hr₀, ?_⟩
    split_ifs with hact
    · exact ⟨⟨rfl, rfl, rfl⟩, fun h : Session.RequestState.isActive .compensated = true =>
        absurd h (by decide)⟩
    · exact ⟨⟨rfl, rfl, rfl⟩, fun h => h⟩
  refine ⟨⟨?_, ?_⟩, ⟨h.shape.interrupt, h.shape.waits, h.shape.answered⟩,
    fun _ => h.given (Session.outside_of_free hfree), ?_, ?_, ?_, ?_, ?_, ?_⟩
  · intro k r hr
    obtain ⟨r₀, hr₀, hsame, -⟩ := hget k r hr
    rw [hsame.command]
    exact h.keyed k r₀ hr₀
  · intro record' phase hr
    exact absurd (hfree.symm.trans hr) (by simp)
  · intro k k' r r' hr hr' ha ha'
    obtain ⟨r₀, hr₀, -, hact⟩ := hget k r hr
    obtain ⟨r₀', hr₀', -, hact'⟩ := hget k' r' hr'
    exact h.single k k' r₀ r₀' hr₀ hr₀' (hact ha) (hact' ha')
  · intro k r hr
    obtain ⟨r₀, hr₀, hsame, -⟩ := hget k r hr
    obtain ⟨r₁, hr₁, hsame₁⟩ := h.logged k r₀ hr₀
    exact ⟨r₁, hr₁, hsame.command.trans hsame₁.command, hsame.target.trans hsame₁.target,
      hsame.base.trans hsame₁.base⟩
  · intro k r hr
    obtain ⟨r₀, hr₀, hsame, -⟩ := hget k r hr
    have haimed := h.aimed k r₀ hr₀
    unfold Session.RequestRow.Aimed at haimed ⊢
    rw [hsame.command, hsame.target, hsame.base]
    exact haimed
  · intro k r hr
    obtain ⟨r₀, hr₀, hsame, -⟩ := hget k r hr
    rw [hsame.base]
    exact h.bounded k r₀ hr₀
  · intro k r hr hin hbase
    obtain ⟨r₀, hr₀, hsame, -⟩ := hget k r hr
    rw [hsame.command] at hin
    rw [hsame.base] at hbase
    exact h.shown k r₀ hr₀ hin hbase
  · intro k ho
    change (compensated record.taskId s.session.tables.requests).get k ≠ none
    unfold compensated
    rw [Table.get_modify, Ne, Option.map_eq_none_iff]
    exact h.known k ho

/-- Every step keeps the invariant. -/
theorem Inv.step {a : Act} (h : Inv H s) (hstep : step H s a = some s') : Inv H s' := by
  cases a with
  | session a messages =>
    have hmoved : (Session.step H s.session a).map (fun session =>
        { s with session, marks := s.marks.after s.session.thread session.thread messages }) =
          some s' := by
      cases a with
      | cleanup taskId => exact absurd hstep (by simp [Failure.step])
      | _ => exact hstep
    obtain ⟨session, hmove, rfl⟩ := Option.map_eq_some_iff.mp hmoved
    have hmove := Session.step_move h.rows.toHeld hmove
    refine ⟨hmove.rows h.rows, h.keyed, fun taskId message hreceipt => ?_⟩
    have hbefore : s.marks.failureReceipts taskId = some message := by
      dsimp only at hreceipt
      unfold Marks.after at hreceipt
      split_ifs at hreceipt <;> exact hreceipt
    obtain ⟨row, hrow, hstatus, hmessage, hrecorded⟩ := h.recorded taskId message hbefore
    exact ⟨row, hrow, hstatus, hmessage, hrecorded.turned (turned_of_move hmove) messages⟩
  | ensure row =>
    unfold Failure.step at hstep
    dsimp only at hstep
    split_ifs at hstep with hopens
    obtain ⟨records, hinsert, rfl⟩ := Option.map_eq_some_iff.mp hstep
    obtain ⟨hfresh, hget⟩ := Table.get_of_insert hinsert
    have hkept : ∀ taskId row', s.records.get taskId = some row' →
        records.get taskId = some row' := by
      intro taskId row' hrow'
      have hne : taskId ≠ row.taskId := by
        rintro rfl
        exact absurd (hfresh.symm.trans hrow') (by simp)
      rw [hget, if_neg hne]
      exact hrow'
    refine ⟨?_, fun taskId row' hrow' => ?_, fun taskId message hreceipt => ?_⟩
    · exact h.rows.carry rfl (fun _ he => he) le_rfl (fun _ _ hr => ⟨_, hr⟩)
        ⟨h.rows.shape.interrupt, h.rows.shape.waits, h.rows.shape.answered⟩ h.rows.given
        (fun _ hint => hint) fun _ ho => .inl ho
    · rw [hget] at hrow'
      split_ifs at hrow' with heq
      · obtain rfl := Option.some.inj hrow'
        exact heq.symm
      · exact h.keyed taskId row' hrow'
    · obtain ⟨row', hrow', hstatus, hmessage, hrecorded⟩ := h.recorded taskId message hreceipt
      exact ⟨row', hkept taskId row' hrow', hstatus, hmessage, hrecorded.same rfl rfl (.inl rfl)⟩
  | confirm taskId executionId status message =>
    unfold Failure.step at hstep
    dsimp only at hstep
    split at hstep
    · exact absurd hstep (by simp)
    rename_i row hrow
    split_ifs at hstep with hopen
    obtain rfl := Option.some.inj hstep
    refine ⟨h.rows, fun other row' hrow' => ?_, fun other message' hreceipt => ?_⟩
    · dsimp only at hrow'
      rw [Table.get_modifyAt] at hrow'
      split_ifs at hrow' with heq
      · obtain ⟨row₀, hrow₀, rfl⟩ := Option.map_eq_some_iff.mp hrow'
        exact h.keyed other row₀ hrow₀
      · exact h.keyed other row' hrow'
    · obtain ⟨row', hrow', hstatus, hrest⟩ := h.recorded other message' hreceipt
      -- The record of a receipt is confirmed already.
      have hne : other ≠ taskId := by
        rintro rfl
        obtain rfl := Option.some.inj (hrow.symm.trans hrow')
        exact hstatus hopen.1
      refine ⟨row', ?_, hstatus, hrest⟩
      dsimp only
      rw [Table.get_modifyAt, if_neg hne]
      exact hrow'
  | settle taskId writes =>
    unfold Failure.step at hstep
    dsimp only at hstep
    split at hstep
    · exact absurd hstep (by simp)
    rename_i row hrow
    split_ifs at hstep with hfree
    obtain ⟨c', hstopped, rfl⟩ := Option.map_eq_some_iff.mp hstep
    exact h.settle hrow (settleGraph_stoppedAt hstopped)
  | finish taskId =>
    unfold Failure.step at hstep
    dsimp only at hstep
    split at hstep
    · exact absurd hstep (by simp)
    rename_i row hrow
    split_ifs at hstep with hdone
    obtain rfl := Option.some.inj hstep
    refine ⟨rows_closed h.rows hdone.1 row, fun other row' hrow' => ?_,
      fun other message hreceipt => ?_⟩
    · dsimp only at hrow'
      rw [Table.get_modifyAt] at hrow'
      split_ifs at hrow' with heq
      · obtain ⟨row₀, hrow₀, rfl⟩ := Option.map_eq_some_iff.mp hrow'
        exact h.keyed other row₀ hrow₀
      · exact h.keyed other row' hrow'
    · obtain ⟨row', hrow', hstatus, hmessage, hrecorded⟩ := h.recorded other message hreceipt
      have hsame : Recorded H.deployment (s.closed row).thread s.marks row' :=
        hrecorded.same rfl rfl (.inl rfl)
      dsimp only
      rw [Table.get_modifyAt]
      split_ifs with heq
      · exact ⟨{ row' with state := .done }, by rw [hrow']; rfl, hstatus, hmessage, hsame.finished⟩
      · exact ⟨row', hrow', hstatus, hmessage, hsame⟩

/-- The invariant holds in every state of a session with cleanups. -/
theorem inv_reachable (hr : (recovery H).Reachable s) : Inv H s := by
  induction hr with
  | start hs =>
    obtain rfl := hs
    refine ⟨Session.rows_reachable (H := H) (.start rfl), fun _ _ hrow => ?_,
      fun _ _ hreceipt => ?_⟩
    · exact absurd hrow (by simp)
    · exact absurd hreceipt (by simp)
  | next hr _ hstep ih => exact ih.step hstep

end ExAgent.Failure
