import ExAgent.Graph.Commits
import ExAgent.Session.Ownership

/-!
# One Task after another

A session works on one Task at a time. `_admit_task` lets a Task in when every other one has ended,
and nothing is pending then; the checkpoint still has the last one as the active Task until
`begin_task` takes the new turn. `Succession` says how the three places that know of a Task go
together: its row, the checkpoint, and the `START` it was admitted with. It is an invariant of every
session (`succession_reachable`).
-/

namespace ExAgent.Session

open Lib ExAgent.Graph

/-- A Task of the session that has not ended. -/
def Unfinished (w : World) (taskId : Uuid) : Prop :=
  ∃ t, w.tasks.get taskId = some t ∧ t.status.isTerminal = false

/-- The Task of a stored turn, which has not begun. -/
structure Coming (t : Thread) (turn : TaskTurn) : Prop where
  stored : t.values.turn = some turn
  new : t.values.taskRequests turn.activeTaskId = none
  unfinished : Unfinished t.world turn.activeTaskId
  identity : t.values.identity = none ∨
    t.values.identity = some (turn.userId, turn.projectId, turn.sessionId)

/-- The Tasks of a session come one after another. -/
structure Succession (s : System) : Prop where
  /-- One Task at most has not ended. -/
  single : ∀ X Y, Unfinished s.thread.world X → Unfinished s.thread.world Y → X = Y
  /-- The active Task is that of the workflow, and has begun. -/
  active : s.thread.values.workflow.map WorkflowState.activeTaskId = s.thread.values.activeTaskId
  begun : ∀ X, s.thread.values.activeTaskId = some X → s.thread.values.taskRequests X ≠ none
  /-- A Task that has begun has a row. -/
  row : ∀ X, s.thread.values.taskRequests X ≠ none → s.thread.world.tasks.get X ≠ none
  /-- The Tasks before the active one have ended. -/
  before : ∀ X, s.thread.values.taskRequests X ≠ none → s.thread.values.activeTaskId ≠ some X →
    ¬Unfinished s.thread.world X
  /-- The graph is left, and entered, behind the end of a Task. -/
  ended : s.thread.next = none ∨ s.thread.next = some .beginTask →
    ∀ wf, s.thread.values.workflow = some wf → wf.phase.isTerminal = true
  coming : s.thread.next = some .beginTask → ∃ turn, Coming s.thread turn
  /-- The Task of a `START` has not ended before it begins. -/
  admitted : ∀ k r, s.tables.requests.get k = some r → r.command.input = .start →
    s.thread.values.taskRequests r.command.turn.activeTaskId = none →
    Unfinished s.thread.world r.command.turn.activeTaskId
  /-- While a Task waits for its begin, nothing else is pending. -/
  waiting : ∀ X, Unfinished s.thread.world X → s.thread.values.activeTaskId ≠ some X →
    s.thread.next = none ∨ s.thread.next = some .beginTask

section

variable {H : Host} {s s' : System} {left : Option Owner}

/-! ## What the checks give -/

/-- A `START` that a snapshot takes finds nothing pending. -/
theorem validateStartSnapshot_ok {D : Deployment} {t : Thread} {turn : TaskTurn} {started : Bool}
    (h : validateStartSnapshot D t turn = .ok started)
    (hnew : t.values.taskRequests turn.activeTaskId = none) :
    t.next = none ∧ (t.values.identity = none ∨
      t.values.identity = some (turn.userId, turn.projectId, turn.sessionId)) := by
  unfold validateStartSnapshot at h
  rw [hnew] at h
  dsimp only at h
  split_ifs at h with hid hnext
  exact ⟨not_not.mp hnext, by tauto⟩

/-- A `START` is admitted when every Task has ended, for a Task without a row. -/
theorem admitTask_start {tables : Tables} {w w' : World} {command : ApiRequest}
    {turns : Table Uuid TaskTurn} (hin : command.input = .start)
    (h : admitTask tables w command = .ok (turns, w')) :
    w.tasks.get command.turn.activeTaskId = none ∧ (∀ X, ¬Unfinished w X) ∧
      w' = w.accept command.turn.activeTaskId := by
  unfold admitTask at h
  dsimp only at h
  split_ifs at h
  rw [hin] at h
  dsimp only at h
  split at h
  · exact absurd h (by simp)
  · rename_i hrow
    split at h
    · exact absurd h (by simp)
    · exact absurd h (by simp)
    · rename_i hall
      refine ⟨hrow, fun X hX => ?_, (Prod.mk.inj (Except.ok.inj h)).2.symm⟩
      obtain ⟨t, ht, hopen⟩ := hX
      unfold unfinishedTask? at hall
      rw [Option.map_eq_none_iff, List.find?_eq_none] at hall
      exact absurd hopen (by simpa using hall (X, t) (Table.mem_entries_iff.mpr ht))

/-- A START is accepted where no Task of the Session is unfinished, and its Task is the new one. -/
theorem storeAccept_start {tables tables' : Tables} {w w' : World} {command : ApiRequest}
    {target : Node} {base : ℕ} {row : RequestRow} (hin : command.input = .start)
    (h : storeAccept tables w command target base = .ok (row, tables', w')) :
    w.tasks.get command.turn.activeTaskId = none ∧ (∀ X, ¬Unfinished w X) ∧
      w' = w.accept command.turn.activeTaskId := by
  unfold storeAccept at h
  split at h
  · exact absurd h (by simp)
  · split at h
    · exact absurd h (by simp)
    · rename_i hadmit
      dsimp only at h
      split at h
      · exact absurd h (by simp)
      · simp only [Except.ok.injEq, Prod.mk.injEq] at h
        obtain ⟨-, -, rfl⟩ := h
        exact admitTask_start hin hadmit

/-- The turn that `ainvoke` is given is that of a `START` whose Task has not begun. -/
theorem nextInvocation_turn {t : Thread} {row : RequestRow} {turn : TaskTurn}
    (h : nextInvocation H t row = .ok (some (.turn turn))) :
    row.command.input = .start ∧ turn = row.command.turn ∧ t.next = none ∧
      t.values.taskRequests turn.activeTaskId = none ∧
      (t.values.identity = none ∨
        t.values.identity = some (turn.userId, turn.projectId, turn.sessionId)) := by
  cases nextInvocation_decided h with
  | start hreceipt hin hnext hbase =>
    have hacc : accepted H t row = .ok false := by simp [accepted, hreceipt]
    unfold nextInvocation at h
    rw [hacc, hin] at h
    dsimp only at h
    unfold startInvocation at h
    dsimp only at h
    rw [if_neg (by simp [hnext])] at h
    by_cases hbegun : t.values.taskRequests row.command.turn.activeTaskId ≠ none
    · rw [if_pos hbegun] at h
      exact absurd h (by simp)
    rw [if_neg hbegun] at h
    have hnew := not_not.mp hbegun
    cases hv : validateStartSnapshot H.deployment t row.command.turn with
    | error e => simp [hv] at h
    | ok started => exact ⟨hin, rfl, hnext, hnew, (validateStartSnapshot_ok hv hnew).2⟩

/-! ## Steps that leave the Tasks alone -/

/-- The rows of the Tasks, the checkpoint and the requests are as they were. -/
theorem Succession.carry (h : Succession s) (hworld : s'.thread.world = s.thread.world)
    (hvalues : s'.thread.values = s.thread.values) (hnext : s'.thread.next = s.thread.next)
    (hrows : ∀ k r, s'.tables.requests.get k = some r →
      ∃ k' r', s.tables.requests.get k' = some r' ∧ r'.command = r.command) : Succession s' := by
  constructor
  · rw [hworld]
    exact h.single
  · rw [hvalues]
    exact h.active
  · rw [hvalues]
    exact h.begun
  · rw [hworld, hvalues]
    exact h.row
  · rw [hworld, hvalues]
    exact h.before
  · rw [hvalues, hnext]
    exact h.ended
  · intro hbegin
    obtain ⟨turn, hc⟩ := h.coming (hnext ▸ hbegin)
    refine ⟨turn, ?_, ?_, ?_, ?_⟩
    · rw [hvalues]
      exact hc.stored
    · rw [hvalues]
      exact hc.new
    · rw [hworld]
      exact hc.unfinished
    · rw [hvalues]
      exact hc.identity
  · intro k r hr hin hnew
    obtain ⟨k', r', hr', hcommand⟩ := hrows k r hr
    rw [hworld, ← hcommand]
    rw [hvalues, ← hcommand] at hnew
    exact h.admitted k' r' hr' (hcommand ▸ hin) hnew
  · rw [hworld, hvalues, hnext]
    exact h.waiting

/-- A row that is written back has the command it had. -/
theorem withRow_command {row : RequestRow}
    (hrow : s.tables.requests.get row.command.requestId = some row) {state : RequestState}
    {attempts : ℕ} {k : Uuid} {r : RequestRow}
    (hr : (s.tables.withRow { row with state, attempts }).requests.get k = some r) :
    ∃ k' r', s.tables.requests.get k' = some r' ∧ r'.command = r.command := by
  rw [get_withRow hrow] at hr
  split_ifs at hr
  · obtain rfl := Option.some.inj hr
    exact ⟨_, row, hrow, rfl⟩
  · exact ⟨k, r, hr, rfl⟩

/-! ## Admission -/

/-- After a START, the unfinished Tasks are the new one and the earlier ones. -/
theorem Unfinished.of_accept {w : World} {taskId X : Uuid} (hnew : w.tasks.get taskId = none) :
    Unfinished (w.accept taskId) X ↔ X = taskId ∨ Unfinished w X := by
  have hget : (w.accept taskId).tasks.get X =
      if X = taskId then some ⟨.accepted, none, none, none⟩ else w.tasks.get X := by
    unfold World.accept
    rw [Table.get_insertIfAbsent, hnew]
    rfl
  unfold Unfinished
  rw [hget]
  by_cases hX : X = taskId
  · simp [hX, TaskStatus.isTerminal]
  · simp [hX]

/-- A Task is admitted behind all others. -/
theorem Succession.admit (h : Succession s) {command : ApiRequest} {target : Node}
    {tables : Tables} {w : World} {row : RequestRow}
    (htarget : targetOf H.deployment s.thread command = .ok target)
    (hstore : storeAccept s.tables s.thread.world command target s.thread.checkpointId =
      .ok (row, tables, w)) :
    Succession { s with
      tables, thread := { s.thread with world := w }, log := s.log ++ [.admitted row] } := by
  obtain ⟨rfl, -, hget, -⟩ := storeAccept_ok hstore
  cases hin : command.input with
  | resume interruptId signal =>
    -- The Tasks stay, and the new row is no `START`.
    obtain rfl : w = s.thread.world := by
      obtain ⟨-, -, -, hw | ⟨hstart, -⟩⟩ := storeAccept_ok hstore
      · exact hw
      · exact absurd (hin.symm.trans hstart) (by simp)
    refine ⟨h.single, h.active, h.begun, h.row, h.before, h.ended, h.coming,
      fun k r hr hstart => ?_, h.waiting⟩
    rw [hget] at hr
    split_ifs at hr
    · obtain rfl := Option.some.inj hr
      exact absurd (hin.symm.trans hstart) (by simp)
    · exact h.admitted k r hr hstart
  | start =>
    obtain ⟨hnew, hall, rfl⟩ := storeAccept_start hin hstore
    have hopen : ∀ X, Unfinished (s.thread.world.accept command.turn.activeTaskId) X ↔
        X = command.turn.activeTaskId := by
      intro X
      rw [Unfinished.of_accept hnew]
      exact or_iff_left (hall X)
    have hbegun : ∀ X, s.thread.values.taskRequests X ≠ none → X ≠ command.turn.activeTaskId := by
      rintro X hX rfl
      exact h.row _ hX hnew
    have hnext : s.thread.next = none := by
      unfold targetOf at htarget
      rw [hin] at htarget
      dsimp only at htarget
      split at htarget
      · exact absurd htarget (by simp)
      · exact absurd htarget (by simp)
      · rename_i hv
        exact (validateStartSnapshot_ok hv (validateStartSnapshot_new hv)).1
    refine ⟨fun X Y hX hY => ?_, h.active, h.begun, fun X hX => ?_, fun X hX _ hun => ?_, h.ended,
      fun hbegin => ?_, fun k r hr hstart hnone => ?_, fun _ _ _ => .inl hnext⟩
    · rw [(hopen X).mp hX, (hopen Y).mp hY]
    · show (s.thread.world.accept _).tasks.get X ≠ none
      unfold World.accept
      rw [Table.get_insertIfAbsent, if_neg (hbegun X hX)]
      exact h.row X hX
    · exact hbegun X hX ((hopen X).mp hun)
    · exact absurd (hnext.symm.trans hbegin) (by simp)
    · rw [hget] at hr
      split_ifs at hr
      · obtain rfl := Option.some.inj hr
        exact (hopen _).mpr rfl
      · exact absurd (h.admitted k r hr hstart hnone) (hall _)

/-! ## The graph -/

/-- Taking an input enters the graph for a Task that has not ended, or leaves it alone. -/
theorem Succession.invoke (h : Succession s) {call : Call} {input : Input}
    (hinput : ∀ turn, input = .turn turn → s.thread.next = none ∧
      s.thread.values.taskRequests turn.activeTaskId = none ∧
      Unfinished s.thread.world turn.activeTaskId ∧ (s.thread.values.identity = none ∨
        s.thread.values.identity = some (turn.userId, turn.projectId, turn.sessionId))) :
    Succession (s.invoke call input) := by
  have hsame : ∀ k r, (s.invoke call input).tables.requests.get k = some r →
      ∃ k' r', s.tables.requests.get k' = some r' ∧ r'.command = r.command :=
    fun k r hr => ⟨k, r, hr, rfl⟩
  cases input with
  | turn turn =>
    obtain ⟨hnext, hnew, hopen, hidentity⟩ := hinput turn rfl
    exact ⟨h.single, h.active, h.begun, h.row, h.before, fun _ => h.ended (.inl hnext),
      fun _ => ⟨turn, rfl, hnew, hopen, hidentity⟩, h.admitted, fun _ _ _ => .inr rfl⟩
  | resume interruptId value =>
    refine h.carry ?_ ?_ ?_ hsame <;>
    · unfold System.invoke Thread.put
      dsimp only
      split_ifs <;> rfl
  | pending => exact h.carry rfl rfl rfl hsame

/-- A node leaves the Tasks alone that are not that of the workflow. -/
theorem Succession.spared (h : Succession s) {w : World}
    (hw : Spares s.thread.values s.thread.world w) {X : Uuid}
    (hX : s.thread.values.activeTaskId ≠ some X) :
    Unfinished w X ↔ Unfinished s.thread.world X := by
  have hother : ∀ wf, s.thread.values.workflow = some wf → X ≠ wf.activeTaskId := by
    rintro wf hwf rfl
    exact hX (by rw [← h.active, hwf, Option.map_some])
  unfold Unfinished
  rw [hw.others X hother]

/-- What a node that is not `begin_task` makes of the Tasks, behind a checkpoint or not. -/
theorem Succession.work (h : Succession s) {n : Node} {w : World} (hnext : s.thread.next = some n)
    (hn : n ≠ .beginTask) (hw : Spares s.thread.values s.thread.world w) :
    (∀ X Y, Unfinished w X → Unfinished w Y → X = Y) ∧
      (∀ X, Unfinished w X → s.thread.values.activeTaskId = some X) ∧
      (∀ X, s.thread.values.taskRequests X ≠ none → w.tasks.get X ≠ none) ∧
      (∀ k r, s.tables.requests.get k = some r → r.command.input = .start →
        s.thread.values.taskRequests r.command.turn.activeTaskId ≠ none) := by
  -- Another Task that has not ended would wait, with nothing else pending.
  have hactive : ∀ X, Unfinished w X → s.thread.values.activeTaskId = some X := by
    intro X hX
    by_contra hne
    have hwait := h.waiting X ((h.spared hw hne).mp hX) hne
    rw [hnext] at hwait
    rcases hwait with hwait | hwait
    · exact absurd hwait (by simp)
    · exact hn (Option.some.inj hwait)
  refine ⟨fun X Y hX hY => ?_, hactive, fun X hX => hw.kept X (h.row X hX),
    fun k r hr hin hnone => ?_⟩
  · exact Option.some.inj ((hactive X hX).symm.trans (hactive Y hY))
  · have hopen := h.admitted k r hr hin hnone
    have hne : s.thread.values.activeTaskId ≠ some r.command.turn.activeTaskId :=
      fun hx => h.begun _ hx hnone
    exact hne (hactive _ ((h.spared hw hne).mpr hopen))

/-- A node that does not complete. -/
theorem Succession.broken (h : Succession s) {n : Node} {w : World}
    (hnext : s.thread.next = some n) (hw : Spares s.thread.values s.thread.world w)
    (hsilent : n = .beginTask → w = s.thread.world)
    (hworld : s'.thread.world = w) (hvalues : s'.thread.values = s.thread.values)
    (hnext' : s'.thread.next = s.thread.next)
    (hrequests : s'.tables.requests = s.tables.requests) : Succession s' := by
  have hsame : ∀ k r, s'.tables.requests.get k = some r →
      ∃ k' r', s.tables.requests.get k' = some r' ∧ r'.command = r.command :=
    fun k r hr => ⟨k, r, hrequests ▸ hr, rfl⟩
  by_cases hn : n = .beginTask
  · exact h.carry (hworld.trans (hsilent hn)) hvalues hnext' hsame
  · obtain ⟨hsingle, hactive, hrow, hstarts⟩ := h.work hnext hn hw
    constructor
    · rw [hworld]
      exact hsingle
    · rw [hvalues]
      exact h.active
    · rw [hvalues]
      exact h.begun
    · rw [hworld, hvalues]
      exact hrow
    · rw [hworld, hvalues]
      exact fun X hX hne hopen => hne (hactive X hopen)
    · rw [hvalues, hnext']
      exact h.ended
    · rw [hnext', hnext]
      exact fun hb => absurd (Option.some.inj hb) hn
    · rw [hrequests, hvalues]
      exact fun k r hr hin hnone => absurd hnone (hstarts k r hr hin)
    · rw [hworld, hvalues]
      exact fun X hX hne => absurd (hactive X hX) hne

/-- A node completes. -/
theorem Succession.checkpoint (h : Succession s) {call : Call} {n : Node} {svc : Services}
    {after : SessionState} {next : Option Node} (hnext : s.thread.next = some n)
    (hok : (superstep H.deployment (call.config H) (s.thread.services svc) n s.thread.values
      s.thread.world).result = .ok (after, next)) {checkpointId : ℕ} {starter : Option Owner}
    {running : Option (Call × Phase)} {log : List Entry} :
    Succession { s with
      thread :=
        { toGraphState := s.thread.toGraphState.checkpoint n (s.thread.services svc)
            (superstep H.deployment (call.config H) (s.thread.services svc) n s.thread.values
              s.thread.world).final after next
          checkpointId, starter }
      running, log } := by
  set o := superstep H.deployment (call.config H) (s.thread.services svc) n s.thread.values
    s.thread.world with ho
  have hw : Spares s.thread.values s.thread.world o.final :=
    superstep_spares.returns _ ⟨fun _ _ => rfl, fun _ h => h⟩ _ hok
  obtain ⟨hcompleted, hsucc⟩ := superstep_completed hok
  -- `begin_task` makes the coming Task the active one and changes no row.
  by_cases hn : n = .beginTask
  · subst hn
    obtain ⟨turn, hb⟩ := superstep_begun hok
    have hsilent : o.final = s.thread.world :=
      (superstep_begin_silent (I := fun w => w = s.thread.world)).returns _ rfl _ hok
    obtain ⟨turn', hcoming⟩ := h.coming hnext
    obtain rfl : turn = turn' := Option.some.inj (hb.stored.symm.trans hcoming.stored)
    obtain rfl : next = some .hydrateTurn := (Except.ok.inj hsucc).symm
    have hwaits : ∀ X, Unfinished s.thread.world X → X = turn.activeTaskId :=
      fun X hX => h.single X _ hX hcoming.unfinished
    refine ⟨?_, ?_, fun X hX => ?_, fun X hX => ?_, fun X hX hne hopen => ?_, ?_, ?_, ?_,
      fun X hX hne => ?_⟩
    · -- The invariant for the new active Task, part by part.
      show ∀ X Y, Unfinished o.final X → Unfinished o.final Y → X = Y
      rw [hsilent]
      exact h.single
    · show after.workflow.map WorkflowState.activeTaskId = after.activeTaskId
      rw [hb.workflow, hb.active]
      rfl
    · change after.activeTaskId = some X at hX
      show after.taskRequests X ≠ none
      obtain rfl : turn.activeTaskId = X := Option.some.inj (hb.active.symm.trans hX)
      simp [hb.requests]
    · change after.taskRequests X ≠ none at hX
      show o.final.tasks.get X ≠ none
      rw [hsilent]
      by_cases hx : X = turn.activeTaskId
      · obtain ⟨t, ht, -⟩ := hcoming.unfinished
        simp [hx, ht]
      · rw [hb.requests, Function.update_of_ne hx] at hX
        exact h.row X hX
    · change Unfinished o.final X at hopen
      change after.activeTaskId ≠ some X at hne
      rw [hsilent] at hopen
      exact hne (by rw [hb.active, hwaits X hopen])
    · rintro (hx | hx) <;> exact absurd hx (by simp [GraphState.checkpoint])
    · intro hx
      exact absurd hx (by simp [GraphState.checkpoint])
    · intro k r hr hin hnone
      change after.taskRequests _ = none at hnone
      show Unfinished o.final _
      rw [hsilent]
      have hx : r.command.turn.activeTaskId ≠ turn.activeTaskId := by
        intro hx
        rw [hb.requests, hx] at hnone
        simp at hnone
      rw [hb.requests, Function.update_of_ne hx] at hnone
      exact h.admitted k r hr hin hnone
    · change Unfinished o.final X at hX
      change after.activeTaskId ≠ some X at hne
      rw [hsilent] at hX
      exact absurd (by rw [hb.active, hwaits X hX]) hne
  · -- Any other node leaves the active Task and the requests as they are.
    obtain ⟨hsingle, hactive, hrow, hstarts⟩ := h.work hnext hn hw
    have hsame : after.activeTaskId = s.thread.values.activeTaskId := hcompleted.active hn
    have hrequests : after.taskRequests = s.thread.values.taskRequests := hcompleted.requests hn
    have hcarries := superstep_carriesOn hn hok
    have hbegin : next ≠ some .beginTask := by
      rintro rfl
      exact (successor_targets hsucc).1 rfl
    refine ⟨hsingle, ?_, ?_, ?_, ?_, ?_, fun hx => absurd hx hbegin, ?_, ?_⟩
    · show after.workflow.map WorkflowState.activeTaskId = after.activeTaskId
      rw [hsame, ← h.active]
      rcases hcarries with ⟨hnone, hnone', -⟩ | ⟨wf, wf', hwf, hwf', hc⟩
      · rw [hnone, hnone']
      · rw [hwf, hwf', Option.map_some, Option.map_some, hc.task]
    · show ∀ X, after.activeTaskId = some X → after.taskRequests X ≠ none
      rw [hsame, hrequests]
      exact h.begun
    · show ∀ X, after.taskRequests X ≠ none → o.final.tasks.get X ≠ none
      rw [hrequests]
      exact hrow
    · show ∀ X, after.taskRequests X ≠ none → after.activeTaskId ≠ some X → ¬Unfinished o.final X
      rw [hsame]
      exact fun X _ hne hopen => hne (hactive X hopen)
    · rintro (hx | hx) wf' hwf'
      · change next = none at hx
        change after.workflow = some wf' at hwf'
        -- A graph that ends has ended its Task.
        have hcloses := closes_of_end (hx ▸ hsucc)
        rcases hcarries with ⟨-, hnone', -⟩ | ⟨wf, wf'', -, hwf'', hc⟩
        · exact absurd (hnone'.symm.trans hwf') (by simp)
        · obtain rfl := Option.some.inj (hwf''.symm.trans hwf')
          exact hc.ended hcloses
      · exact absurd hx hbegin
    · intro k r hr hin hnone
      change after.taskRequests _ = none at hnone
      rw [hrequests] at hnone
      exact absurd hnone (hstarts k r hr hin)
    · intro X hX hne
      change after.activeTaskId ≠ some X at hne
      rw [hsame] at hne
      exact absurd (hactive X hX) hne

/-! ## Every step -/

/-- A step keeps the succession of the Tasks. -/
theorem Move.succession (hmove : Move H s left s') (h : Succession s) (hheld : Held s) :
    Succession s' := by
  have hsame : ∀ k r, s.tables.requests.get k = some r →
      ∃ k' r', s.tables.requests.get k' = some r' ∧ r'.command = r.command :=
    fun k r hr => ⟨k, r, hr, rfl⟩
  have hrefl : Spares s.thread.values s.thread.world s.thread.world :=
    ⟨fun _ _ => rfl, fun _ h => h⟩
  cases hmove with
  | free | died | delivery | nothing => exact h.carry rfl rfl rfl hsame
  | admitted hfree htarget hstore => exact h.admit htarget hstore
  | row state attempts hout hrow hactive hstate =>
    exact h.carry rfl rfl rfl fun _ _ hr => withRow_command hrow hr
  | claimed attempts hfree hrow hactive =>
    exact h.carry rfl rfl rfl fun _ _ hr => withRow_command hrow hr
  | @request record input hrun hinput =>
    refine h.invoke fun turn hturn => ?_
    subst hturn
    -- The turn is that of a request that was admitted.
    obtain ⟨hin, rfl, hnext, hnew, hidentity⟩ := nextInvocation_turn hinput
    obtain ⟨hrow, -⟩ := hheld.held record _ hrun
    exact ⟨hnext, hnew, h.admitted _ record hrow hin hnew, hidentity⟩
  | event hrun hinput =>
    refine h.invoke fun turn hturn => ?_
    cases decideDelivery_answered hinput with
    | own | event => exact absurd hturn (by simp)
  | checkpoint phase hrun hnext hok => exact h.checkpoint hnext hok
  | interrupt hrun hnext hkind hresume herr =>
    refine h.broken hnext (superstep_spares.raises _ hrefl _ herr) (fun hn => ?_) rfl rfl rfl rfl
    subst hn
    exact (superstep_begin_silent (I := fun w => w = s.thread.world)).raises _ rfl _ herr
  | @broken call n svc w took running hrun hnext hw hend =>
    refine h.broken (w := w) hnext ?_ (fun hn => ?_) rfl rfl rfl rfl
    · rcases hw with ⟨commits, hw⟩ | ⟨e, herr, rfl⟩
      · exact superstep_spares.stoppedAt hrefl hrefl hw
      · exact superstep_spares.raises _ hrefl _ herr
    · -- A `begin_task` that breaks has written nothing.
      subst hn
      rcases hw with ⟨commits, hw⟩ | ⟨e, herr, rfl⟩
      · exact (superstep_begin_silent (I := fun w => w = s.thread.world)).stoppedAt rfl rfl hw
      · exact (superstep_begin_silent (I := fun w => w = s.thread.world)).raises _ rfl _ herr

/-- The Tasks come one after another in every session. -/
theorem succession_reachable (h : (session H).Reachable s) : Succession s := by
  induction h with
  | start hs =>
    obtain rfl := hs
    constructor <;> simp [Unfinished]
  | next hr _ hstep ih =>
    have hheld := (rows_reachable hr).toHeld
    exact (step_move hheld hstep).succession ih hheld

end

end ExAgent.Session
