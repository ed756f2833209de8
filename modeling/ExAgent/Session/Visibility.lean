import ExAgent.Lib.Fallible
import ExAgent.Session.Projection
import ExAgent.Session.Succession

/-!
# When a cancellation stays visible

The graph goes back to its wait behind `cancel_execution`, and the projector calls a wait for an
event `WAITING_FOR_EXECUTOR_EVENT` whatever the phase is. So the call that applies a cancellation
hides it with its own last projection, and the cancellation stays visible in exactly the runs whose
steps are `Unhidden`: what is projected of the Task after its cancellation has no open interrupt.

`Cancelled` is the invariant: a Task for which `cancel_execution` has run is the active one in the
phase of its cancellation, or it is closed. No node behind the wait writes another status to it
(`Shows`).
-/

namespace ExAgent.Session

open Lib ExAgent.Graph Prog

/-! ## The thread of a cancelled Task -/

/-- The Task of the workflow is the active one, and is known to the session. -/
def Home (t : Thread) : Prop :=
  ∀ wf, t.values.workflow = some wf →
    t.values.activeTaskId = some wf.activeTaskId ∧ t.values.taskRequests wf.activeTaskId ≠ none

/-- The Task is active in the phase of its cancellation, at a node behind the wait. -/
def Awaiting (taskId : Uuid) (t : Thread) : Prop :=
  ∃ wf n, t.values.workflow = some wf ∧ wf.activeTaskId = taskId ∧ wf.phase = .cancelRequested ∧
    t.next = some n ∧ (n.awaits = true ∨ n.advances = true)

/-- The Task is closed, and the graph has done with it. -/
def Over (taskId : Uuid) (t : Thread) : Prop :=
  Closed taskId t.world ∧ ∀ wf, t.values.workflow = some wf → wf.activeTaskId = taskId →
    wf.phase.isTerminal = true ∧ (t.next = none ∨ t.next = some .beginTask)

/-- `cancel_execution` has run for the Task. -/
structure Cancelled (taskId : Uuid) (t : Thread) : Prop where
  known : t.values.taskRequests taskId ≠ none
  stands : Awaiting taskId t ∨ Over taskId t

section

variable {H : Host} {s s' : System} {left : Option Owner} {taskId : Uuid} {t t' : Thread}

/-- What a caller stores is an input. -/
theorem put_core (owner : Owner) (input : Input) :
    (t.put owner input).values.workflow = t.values.workflow ∧
      (t.put owner input).values.activeTaskId = t.values.activeTaskId ∧
      (t.put owner input).values.taskRequests = t.values.taskRequests ∧
      (t.put owner input).world = t.world := by
  unfold Thread.put
  cases input with
  | turn turn => exact ⟨rfl, rfl, rfl, rfl⟩
  | resume interruptId value =>
    dsimp only
    split_ifs <;> exact ⟨rfl, rfl, rfl, rfl⟩
  | pending => exact ⟨rfl, rfl, rfl, rfl⟩

/-- A turn is stored at the end of a graph, and anything else leaves the node that is next. -/
theorem put_next (owner : Owner) {input : Input} (h : ∀ turn, input = .turn turn → t.next = none) :
    (t.put owner input).next = t.next ∨
      t.next = none ∧ (t.put owner input).next = some .beginTask := by
  unfold Thread.put
  cases input with
  | turn turn => exact .inr ⟨h turn rfl, rfl⟩
  | resume interruptId value =>
    dsimp only
    split_ifs <;> exact .inl rfl
  | pending => exact .inl rfl

/-- A thread with the same Session is at home as before. -/
theorem Home.carry (h : Home t) (hwf : t'.values.workflow = t.values.workflow)
    (hactive : t'.values.activeTaskId = t.values.activeTaskId)
    (hreq : t'.values.taskRequests = t.values.taskRequests) : Home t' := by
  intro wf hwf'
  rw [hactive, hreq]
  exact h wf (hwf ▸ hwf')

/-- A cancelled Task stays so when an input is stored, or another Task's row is written. -/
theorem Cancelled.carry (h : Cancelled taskId t)
    (hwf : t'.values.workflow = t.values.workflow)
    (hreq : t'.values.taskRequests = t.values.taskRequests)
    (hnext : t'.next = t.next ∨ t.next = none ∧ t'.next = some .beginTask)
    (hclosed : Over taskId t → Closed taskId t'.world) : Cancelled taskId t' := by
  refine ⟨hreq ▸ h.known, ?_⟩
  rcases h.stands with ⟨wf, n, hw, hid, hphase, hn, hat⟩ | hover
  · refine .inl ⟨wf, n, hwf.trans hw, hid, hphase, ?_, hat⟩
    rcases hnext with hnext | ⟨hnone, -⟩
    · exact hnext.trans hn
    · exact absurd (hn.symm.trans hnone) (by simp)
  · refine .inr ⟨hclosed hover, fun wf hw hid => ?_⟩
    obtain ⟨hphase, hat⟩ := hover.2 wf (hwf ▸ hw) hid
    refine ⟨hphase, ?_⟩
    rcases hnext with hnext | ⟨-, hbegin⟩
    · rwa [hnext]
    · exact .inr hbegin

/-! ## Nodes -/

variable {config : Config} {svc : Services} {n : Node} {after : SessionState} {next : Option Node}

/-- A node keeps the active Task known to its session. -/
theorem Home.checkpoint {D : Deployment} {w : World} {v : SessionState} (h : Home t)
    (hv : t.values = v) (hvalues : t'.values = after)
    (hok : (superstep D config svc n v w).result = .ok (after, next)) : Home t' := by
  subst hv
  intro wf hwf
  rw [hvalues] at hwf ⊢
  by_cases hn : n = .beginTask
  · subst hn
    obtain ⟨turn, hbegun⟩ := superstep_begun hok
    obtain rfl := Option.some.inj (hbegun.workflow.symm.trans hwf)
    refine ⟨hbegun.active, ?_⟩
    rw [hbegun.requests]
    exact (Function.update_self turn.activeTaskId _ t.values.taskRequests).trans_ne (by simp)
  · have hdone := (superstep_completed hok).1
    rcases superstep_carriesOn hn hok with ⟨-, hnone, -⟩ | ⟨wf₀, wf', hwf₀, hwf', hcarries⟩
    · exact absurd (hwf.symm.trans hnone) (by simp)
    · obtain rfl := Option.some.inj (hwf'.symm.trans hwf)
      rw [hdone.active hn, hdone.requests hn, hcarries.task]
      exact h wf₀ hwf₀

/-- The node that is next serves another Task, or lets one begin. -/
theorem Over.apart (h : Over taskId t) (hnext : t.next = some n) {wf : WorkflowState}
    (hwf : t.values.workflow = some wf) : wf.activeTaskId ≠ taskId ∨ n = .beginTask := by
  by_cases hid : wf.activeTaskId = taskId
  · rcases (h.2 wf hwf hid).2 with hnone | hbegin
    · exact absurd (hnext.symm.trans hnone) (by simp)
    · exact .inr (Option.some.inj (hnext.symm.trans hbegin))
  · exact .inl hid

/-- The graph leaves the row of a Task alone that it has done with. -/
theorem Over.steady {D : Deployment} {I : World → Prop} (h : Over taskId t)
    (hnext : t.next = some n)
    (hI : ∀ w w', I w → w'.tasks.get taskId = w.tasks.get taskId → I w') :
    Steady I (superstep D config svc n t.values) := by
  by_cases hn : n = .beginTask
  · subst hn
    exact superstep_begin_silent
  · refine superstep_keeps fun wf w w' _ hwf hw hc => hI w w' hw ((hc.tasks taskId).1 ?_)
    exact ((h.apart hnext hwf).resolve_right hn).symm

/-- A Task that is over stays closed in every node. -/
theorem Over.steady_closed {D : Deployment} (h : Over taskId t) (hnext : t.next = some n) :
    Steady (Closed taskId) (superstep D config svc n t.values) :=
  h.steady hnext fun _ _ hw heq => hw.of_tasks heq

/-- A cancelled Task is at a node behind the wait, unless a report or a plan begins. -/
theorem awaits_of_later {wf : WorkflowState} (hat : n.awaits = true ∨ n.advances = true)
    (hwf : t.values.workflow = some wf) (hphase : wf.phase = .cancelRequested)
    (hlater : ∀ wf, t.values.workflow = some wf → wf.phase = .cancelRequested →
      n.advances = false) :
    n.awaits = true := by
  rcases hat with hat | hat
  · exact hat
  · exact absurd (hat.symm.trans (hlater wf hwf hphase)) (by decide)

/-- The graph shows a cancellation as long as it shows. -/
theorem Cancelled.steady_shows {D : Deployment} (h : Cancelled taskId t) (hnext : t.next = some n)
    (hlater : ∀ wf, t.values.workflow = some wf → wf.phase = .cancelRequested →
      n.advances = false) :
    Steady (Shows taskId) (superstep D config svc n t.values) := by
  rcases h.stands with ⟨wf, m, hwf, hid, hphase, hm, hat⟩ | hover
  · obtain rfl := Option.some.inj (hnext.symm.trans hm)
    refine superstep_shows (awaits_of_later hat hwf hphase hlater) fun wf' hwf' => ?_
    obtain rfl := Option.some.inj (hwf.symm.trans hwf')
    exact hid
  · exact hover.steady hnext fun _ _ hw heq => hw.of_tasks heq

/-- A cancelled Task stays so when a node completes. -/
theorem Cancelled.checkpoint {D : Deployment} (h : Cancelled taskId t) (hnext : t.next = some n)
    (hlater : ∀ wf, t.values.workflow = some wf → wf.phase = .cancelRequested → n.advances = false)
    (hok : (superstep D config svc n t.values t.world).result = .ok (after, next))
    (hvalues : t'.values = after) (hnext' : t'.next = next)
    (hworld : t'.world.tasks = (superstep D config svc n t.values t.world).final.tasks) :
    Cancelled taskId t' := by
  obtain ⟨hdone, hsucc⟩ := superstep_completed hok
  rcases h.stands with ⟨wf, m, hwf, hid, hphase, hm, hat⟩ | hover
  · obtain rfl := Option.some.inj (hnext.symm.trans hm)
    have hawaits := awaits_of_later hat hwf hphase hlater
    have hbegin : n ≠ .beginTask := by
      rintro rfl
      exact absurd hawaits (by decide)
    refine ⟨by rw [hvalues, hdone.requests hbegin]; exact h.known, ?_⟩
    obtain ⟨wf', hwf', hleft⟩ := superstep_awaited hawaits hwf hok
    obtain ⟨hnone, -, -⟩ | ⟨wf₀, wf₁, hwf₀, hwf₁, hcarries⟩ := superstep_carriesOn hbegin hok
    · exact absurd (hwf.symm.trans hnone) (by simp)
    obtain rfl := Option.some.inj (hwf.symm.trans hwf₀)
    obtain rfl := Option.some.inj (hwf'.symm.trans hwf₁)
    have htask : wf'.activeTaskId = taskId := hcarries.task.trans hid
    cases hcloses : n.closes with
    | true =>
      -- The node has closed the Task.
      obtain rfl := end_of_closes hcloses hsucc
      refine .inr ⟨?_, fun wf₂ hwf₂ _ => ?_⟩
      · exact Closed.of_tasks (hid ▸ hleft.closed hcloses) (by rw [hworld])
      · rw [hvalues] at hwf₂
        obtain rfl := Option.some.inj (hwf'.symm.trans hwf₂)
        exact ⟨hcarries.ended hcloses, .inl hnext'⟩
    | false =>
      have hphase' : wf'.phase = .cancelRequested := by
        rcases hleft.phase hcloses with hsame | hcancel
        · exact hsame.trans hphase
        · exact hleft.cancelled hcancel
      cases hm' : next with
      | none => exact absurd ((closes_of_end (hm' ▸ hsucc)).symm.trans hcloses) (by decide)
      | some m =>
        refine .inl ⟨wf', m, by rw [hvalues, hwf'], htask, hphase', hnext'.trans hm', ?_⟩
        exact successor_awaits hawaits (hm' ▸ hsucc)
  · -- Another Task is served, or a new one begins.
    have hclosed := hover.steady_closed hnext |>.returns t.world hover.1 _ hok
    have hother : ∀ wf', after.workflow = some wf' → wf'.activeTaskId ≠ taskId := by
      intro wf' hwf'
      by_cases hn : n = .beginTask
      · subst hn
        obtain ⟨turn, hbegun⟩ := superstep_begun hok
        obtain rfl := Option.some.inj (hbegun.workflow.symm.trans hwf')
        rintro rfl
        exact h.known hbegun.new
      · rcases superstep_carriesOn hn hok with ⟨-, hnone, -⟩ | ⟨wf₀, wf₁, hwf₀, hwf₁, hcarries⟩
        · exact absurd (hwf'.symm.trans hnone) (by simp)
        · obtain rfl := Option.some.inj (hwf'.symm.trans hwf₁)
          rw [hcarries.task]
          exact (hover.apart hnext hwf₀).resolve_right hn
    refine ⟨?_, .inr ⟨hclosed.of_tasks (by rw [hworld]), fun wf' hwf' hid => ?_⟩⟩
    · rw [hvalues]
      by_cases hn : n = .beginTask
      · subst hn
        obtain ⟨turn, hbegun⟩ := superstep_begun hok
        rw [hbegun.requests]
        have hne : taskId ≠ turn.activeTaskId := by
          rintro rfl
          exact h.known hbegun.new
        rw [Function.update_of_ne hne]
        exact h.known
      · rw [hdone.requests hn]
        exact h.known
    · exact absurd hid (hother wf' (hvalues ▸ hwf'))

end

/-! ## Steps of the thread -/

/-- The node takes no cancelled Task on. -/
def Stays (t : Thread) (n : Node) : Prop :=
  ∀ wf, t.values.workflow = some wf → wf.phase = .cancelRequested → n.advances = false

/-- What a step of a session makes of its thread. -/
inductive Moved (D : Deployment) (t : Thread) : Thread → Prop
  /-- It leaves the checkpoint alone. -/
  | still {t' : Thread} (hgraph : t'.toGraphState = t.toGraphState) : Moved D t t'
  /-- A Task is admitted that the session does not know. -/
  | admitted {taskId : Uuid} (hnew : t.values.taskRequests taskId = none) :
    Moved D t { t with world := t.world.accept taskId }
  /-- An input is taken. -/
  | stored (owner : Owner) {input : Input} (hturn : ∀ turn, input = .turn turn → t.next = none) :
    Moved D t (t.put owner input)
  /-- A node completes. -/
  | ran {t' : Thread} {config : Config} {svc : Services} {n : Node} {after : SessionState}
      {next : Option Node} (hnext : t.next = some n) (hstays : Stays t n)
      (hok : (superstep D config svc n t.values t.world).result = .ok (after, next))
      (hvalues : t'.values = after) (hnext' : t'.next = next)
      (hworld : t'.world.tasks = (superstep D config svc n t.values t.world).final.tasks) :
      Moved D t t'
  /-- A node interrupts, raises or is stopped. -/
  | left {t' : Thread} {config : Config} {svc : Services} {n : Node}
      (hnext : t.next = some n) (hstays : Stays t n)
      (hvalues : t'.values = t.values) (hnext' : t'.next = some n)
      (hworld : (∃ commits, (superstep D config svc n t.values).stoppedAt t.world commits =
          some t'.world) ∨
        ∃ e, (superstep D config svc n t.values t.world).result = .error e ∧
          t'.world = (superstep D config svc n t.values t.world).final) : Moved D t t'

section

variable {H : Host} {s s' : System} {left : Option Owner} {taskId : Uuid} {t t' : Thread}
  {D : Deployment}

/-- A step of the Session is a move of its thread. -/
theorem Move.moved (h : Move H s left s')
    (hstays : ∀ call n, s.running = some (call, .looping) → s.thread.next = some n →
      Stays s.thread n) : Moved H.deployment s.thread s'.thread := by
  cases h with
  | free | died | row | claimed | delivery | nothing => exact .still rfl
  | @admitted command _ _ _ _ hfree htarget hstore =>
    obtain ⟨-, -, -, rfl | ⟨hstart, rfl⟩⟩ := storeAccept_ok hstore
    · exact .still rfl
    · have hnew := targetOf_ok htarget
      unfold Target at hnew
      rw [hstart] at hnew
      exact .admitted hnew.2
  | request hrun hinput =>
    refine .stored _ fun turn hturn => ?_
    subst hturn
    exact (nextInvocation_turn hinput).2.2.1
  | event hrun hinput =>
    refine .stored _ fun turn hturn => ?_
    subst hturn
    cases decideDelivery_answered hinput
  | checkpoint phase hrun hnext hok => exact .ran hnext (hstays _ _ hrun hnext) hok rfl rfl rfl
  | interrupt hrun hnext hkind hresume herr =>
    exact .left hnext (hstays _ _ hrun hnext) rfl hnext (.inr ⟨_, herr, rfl⟩)
  | broken took running hrun hnext hw hend =>
    exact .left hnext (hstays _ _ hrun hnext) rfl hnext hw

/-- What a node keeps it has kept wherever it stops. -/
theorem steady_left {I : World → Prop} {config : Config} {svc : Services} {n : Node} {w : World}
    (h : Steady I (superstep D config svc n t.values)) (hI : I t.world)
    (hworld : (∃ commits, (superstep D config svc n t.values).stoppedAt t.world commits = some w) ∨
      ∃ e, (superstep D config svc n t.values t.world).result = .error e ∧
        w = (superstep D config svc n t.values t.world).final) : I w := by
  rcases hworld with ⟨commits, hw⟩ | ⟨e, herr, rfl⟩
  · exact Triple.stoppedAt h hI hI hw
  · exact h.raises _ hI e herr

/-- A move keeps a thread at home. -/
theorem Moved.home (h : Home t) (hmoved : Moved D t t') : Home t' := by
  cases hmoved with
  | still hgraph =>
    have hvalues : t'.values = t.values := congrArg GraphState.values hgraph
    exact h.carry (by rw [hvalues]) (by rw [hvalues]) (by rw [hvalues])
  | admitted hnew => exact h.carry rfl rfl rfl
  | stored owner hturn =>
    obtain ⟨hwf, hactive, hreq, -⟩ := put_core owner _
    exact h.carry hwf hactive hreq
  | ran hnext hstays hok hvalues hnext' hworld => exact h.checkpoint rfl hvalues hok
  | left hnext hstays hvalues hnext' hworld =>
    exact h.carry (by rw [hvalues]) (by rw [hvalues]) (by rw [hvalues])

/-- Admitting another Task leaves a row alone. -/
theorem accept_other {w : World} {taskId' : Uuid} (hne : taskId ≠ taskId') :
    (w.accept taskId').tasks.get taskId = w.tasks.get taskId :=
  (Table.get_insertIfAbsent _ _ _ _).trans (if_neg hne)

/-- A move keeps a cancelled Task cancelled. -/
theorem Moved.cancelled (h : Cancelled taskId t) (hmoved : Moved D t t') : Cancelled taskId t' := by
  cases hmoved with
  | still hgraph =>
    have hvalues : t'.values = t.values := congrArg GraphState.values hgraph
    refine h.carry (by rw [hvalues]) (by rw [hvalues]) (.inl (congrArg GraphState.next hgraph))
      fun hover => ?_
    rw [show t'.world = t.world from congrArg GraphState.world hgraph]
    exact hover.1
  | @admitted taskId' hnew =>
    have hne : taskId ≠ taskId' := by
      rintro rfl
      exact h.known hnew
    exact h.carry rfl rfl (.inl rfl) fun hover => hover.1.of_tasks (accept_other hne)
  | stored owner hturn =>
    obtain ⟨hwf, -, hreq, hworld⟩ := put_core owner _
    exact h.carry hwf hreq (put_next owner hturn) fun hover => hworld ▸ hover.1
  | ran hnext hstays hok hvalues hnext' hworld =>
    exact h.checkpoint hnext hstays hok hvalues hnext' hworld
  | left hnext hstays hvalues hnext' hworld =>
    refine h.carry (by rw [hvalues]) (by rw [hvalues])
      (.inl (hnext'.trans hnext.symm)) fun hover => ?_
    exact steady_left (hover.steady_closed hnext) hover.1 hworld

/-- A move keeps what a cancelled Task shows. -/
theorem Moved.shows (h : Cancelled taskId t) (hshows : Shows taskId t.world)
    (hmoved : Moved D t t') : Shows taskId t'.world := by
  cases hmoved with
  | still hgraph =>
    rw [show t'.world = t.world from congrArg GraphState.world hgraph]
    exact hshows
  | @admitted taskId' hnew =>
    have hne : taskId ≠ taskId' := by
      rintro rfl
      exact h.known hnew
    exact hshows.of_tasks (accept_other hne)
  | stored owner hturn =>
    rw [(put_core owner _).2.2.2]
    exact hshows
  | ran hnext hstays hok hvalues hnext' hworld =>
    exact ((h.steady_shows hnext hstays).returns _ hshows _ hok).of_tasks (by rw [hworld])
  | left hnext hstays hvalues hnext' hworld =>
    exact steady_left (h.steady_shows hnext hstays) hshows hworld

/-! ## Projections -/

/-- The status that a projection gives. -/
def System.shown (s : System) (wf : WorkflowState) : TaskStatus :=
  projectedStatus wf.phase (s.thread.boundary?.map fun b => b.2.2)

/-- A projection writes a status to the active Task, unless that has ended. -/
structure Projected (s s' : System) : Prop where
  same : ∃ w, s' = { s with thread := { s.thread with world := w } }
  idle : s.thread.values.activeTaskId = none ∨ s.thread.values.workflow = none →
    s'.thread.world = s.thread.world
  row : ∀ taskId wf, s.thread.values.activeTaskId = some taskId →
    s.thread.values.workflow = some wf → ∃ task, s.thread.world.tasks.get taskId = some task ∧
      ∀ id, s'.thread.world.tasks.get id =
        if id = taskId ∧ task.status.isTerminal = false then some { task with status := s.shown wf }
        else s.thread.world.tasks.get id

/-- A projection that is written is one of the kinds of `Projected`. -/
theorem project_ok (h : s.project = .ok s') : Projected s s' := by
  unfold System.project at h
  cases hactive : s.thread.values.activeTaskId with
  | none =>
    rw [hactive] at h
    obtain rfl := Except.ok.inj h
    exact ⟨⟨_, rfl⟩, fun _ => rfl, fun _ _ h => absurd (hactive.symm.trans h) (by simp)⟩
  | some taskId =>
    cases hwf : s.thread.values.workflow with
    | none =>
      rw [hactive, hwf] at h
      obtain rfl := Except.ok.inj h
      exact ⟨⟨_, rfl⟩, fun _ => rfl, fun _ _ _ h => absurd (hwf.symm.trans h) (by simp)⟩
    | some wf =>
      rw [hactive, hwf] at h
      obtain ⟨w, hw, rfl⟩ := Lib.Fallible.map_eq_ok.mp h
      refine ⟨⟨w, rfl⟩, fun hidle => absurd hidle (by simp [hactive, hwf]),
        fun id wf' hid hwf' => ?_⟩
      obtain rfl := Option.some.inj (hactive.symm.trans hid)
      obtain rfl := Option.some.inj (hwf.symm.trans hwf')
      unfold writeStatus at hw
      split at hw
      · exact absurd hw (by simp)
      · rename_i task htask
        refine ⟨task, htask, fun id => ?_⟩
        split_ifs at hw with hended
        · obtain rfl := Except.ok.inj hw
          exact (if_neg (by simp [hended])).symm
        · obtain rfl := Except.ok.inj hw
          have hopen : task.status.isTerminal = false := by simpa using hended
          refine (Table.get_modifyAt _ _ _ _).trans ?_
          by_cases hid : id = taskId
          · rw [if_pos hid, if_pos ⟨hid, hopen⟩, hid, htask]
            rfl
          · rw [if_neg hid, if_neg fun h => hid h.1]

/-- The rows of a session after a projection. -/
theorem Projected.get (h : Projected s s') (id : Uuid) :
    s'.thread.world.tasks.get id = s.thread.world.tasks.get id ∨ ∃ wf task,
      s.thread.values.activeTaskId = some id ∧ s.thread.values.workflow = some wf ∧
        s.thread.world.tasks.get id = some task ∧ task.status.isTerminal = false ∧
        s'.thread.world.tasks.get id = some { task with status := s.shown wf } := by
  cases hactive : s.thread.values.activeTaskId with
  | none => exact .inl (by rw [h.idle (.inl hactive)])
  | some taskId =>
    cases hwf : s.thread.values.workflow with
    | none => exact .inl (by rw [h.idle (.inr hwf)])
    | some wf =>
      obtain ⟨task, htask, hget⟩ := h.row taskId wf hactive hwf
      by_cases hid : id = taskId ∧ task.status.isTerminal = false
      · obtain ⟨rfl, hopen⟩ := hid
        exact .inr ⟨wf, task, rfl, rfl, htask, hopen, (hget id).trans (if_pos ⟨rfl, hopen⟩)⟩
      · exact .inl ((hget id).trans (if_neg hid))

/-- A Task that has ended keeps its row. -/
theorem Projected.ended (h : Projected s s')
    (hended : ∀ task, s.thread.world.tasks.get taskId = some task → task.status.isTerminal = true) :
    s'.thread.world.tasks.get taskId = s.thread.world.tasks.get taskId := by
  rcases h.get taskId with hsame | ⟨wf, task, -, -, htask, hopen, -⟩
  · exact hsame
  · exact absurd ((hended task htask).symm.trans hopen) (by decide)

/-- A projection keeps a closed Task closed. -/
theorem Projected.closed (h : Projected s s') (hclosed : Closed taskId s.thread.world) :
    Closed taskId s'.thread.world := by
  refine hclosed.of_tasks (h.ended fun task htask => ?_)
  obtain ⟨closed, hrow, hend⟩ := hclosed
  obtain rfl := Option.some.inj (hrow.symm.trans htask)
  exact hend

/-- A projection keeps a thread at home. -/
theorem Projected.home (h : Projected s s') (hhome : Home s.thread) : Home s'.thread := by
  obtain ⟨w, rfl⟩ := h.same
  exact hhome.carry rfl rfl rfl

/-- A projection keeps a cancelled Task cancelled. -/
theorem Projected.cancelled (h : Projected s s') (hc : Cancelled taskId s.thread) :
    Cancelled taskId s'.thread := by
  have hclosed : Over taskId s.thread → Closed taskId s'.thread.world := fun hover =>
    h.closed hover.1
  obtain ⟨w, rfl⟩ := h.same
  exact hc.carry rfl rfl (.inl rfl) hclosed

/-- Without an open interrupt, a projection shows a cancellation. -/
theorem Projected.shows (h : Projected s s') (hhome : Home s.thread)
    (hc : Cancelled taskId s.thread) (hshut : s.thread.boundary? = none) :
    Shows taskId s'.thread.world := by
  rcases hc.stands with ⟨wf, n, hwf, hid, hphase, -, -⟩ | hover
  · have hactive := (hhome wf hwf).1
    rw [hid] at hactive
    obtain ⟨task, htask, hget⟩ := h.row taskId wf hactive hwf
    intro task' htask'
    rw [hget] at htask'
    split_ifs at htask' with hopen
    · obtain rfl := Option.some.inj htask'
      refine .inr ?_
      show projectedStatus wf.phase (s.thread.boundary?.map fun b => b.2.2) = .cancelRequested
      rw [hshut]
      exact hphase
    · obtain rfl := Option.some.inj (htask.symm.trans htask')
      exact .inl (by simpa using hopen)
  · exact (h.closed hover.1).shows

/-- The status at an open interrupt. -/
theorem shown_open (wf : WorkflowState) (hopen : s.thread.boundary? ≠ none) :
    (s.shown wf).isTerminal = false ∧ s.shown wf ≠ .cancelRequested := by
  obtain ⟨b, hb⟩ := Option.ne_none_iff_exists'.mp hopen
  unfold System.shown projectedStatus
  rw [hb]
  dsimp only [Option.map_some]
  split <;> decide

/-- A projection of a cancelled Task that goes on does not raise at an open interrupt. -/
theorem project_total (hhome : Home s.thread) (hc : Cancelled taskId s.thread)
    (hopen : s.thread.boundary? ≠ none) {task : TaskRow}
    (htask : s.thread.world.tasks.get taskId = some task) (hlive : task.status.isTerminal = false)
    (e : Raised) : s.project ≠ .error e := by
  rcases hc.stands with ⟨wf, n, hwf, hid, -, -, -⟩ | hover
  · have hactive := (hhome wf hwf).1
    rw [hid] at hactive
    have hstatus := (shown_open wf hopen).1
    unfold System.project
    rw [hactive, hwf]
    dsimp only
    have hwrite : writeStatus s.thread.world taskId (s.shown wf) = .ok { s.thread.world with
        tasks :=
          s.thread.world.tasks.modifyAt taskId fun t => { t with status := s.shown wf } } := by
      unfold writeStatus
      rw [htask]
      dsimp only
      rw [if_neg (by simp [hlive]), if_neg (by simp [hstatus])]
    unfold System.shown at hwrite
    rw [hwrite]
    exact fun h => absurd h (by simp [Except.map])
  · obtain ⟨closed, hrow, hend⟩ := hover.1
    obtain rfl := Option.some.inj (htask.symm.trans hrow)
    exact absurd (hend.symm.trans hlive) (by decide)

/-- With an open interrupt, a projection hides a cancellation. -/
theorem Projected.hides (h : Projected s s') (hhome : Home s.thread)
    (hc : Cancelled taskId s.thread) (hopen : s.thread.boundary? ≠ none) {task : TaskRow}
    (htask : s.thread.world.tasks.get taskId = some task) (hlive : task.status.isTerminal = false) :
    ¬Shows taskId s'.thread.world := by
  rcases hc.stands with ⟨wf, n, hwf, hid, -, -, -⟩ | hover
  · have hactive := (hhome wf hwf).1
    rw [hid] at hactive
    obtain ⟨task', htask', hget⟩ := h.row taskId wf hactive hwf
    obtain rfl := Option.some.inj (htask.symm.trans htask')
    intro hshows
    obtain ⟨hstatus, hne⟩ := shown_open wf hopen
    rcases hshows _ ((hget taskId).trans (if_pos ⟨rfl, hlive⟩)) with hend | heq
    · exact absurd (hend.symm.trans hstatus) (by decide)
    · exact hne heq
  · obtain ⟨closed, hrow, hend⟩ := hover.1
    obtain rfl := Option.some.inj (htask.symm.trans hrow)
    exact absurd (hend.symm.trans hlive) (by decide)

/-! ## Completions -/

variable {a : Action} {requestId : Uuid}

/-- After a row is written, an applied request is that row's, or was applied before. -/
theorem complete_withRow {tables : Tables} {row : RequestRow}
    (h : ((tables.withRow row).requests.get requestId).map RequestRow.state = some .applied) :
    (row.command.requestId = requestId ∧ row.state = .applied) ∨
      (tables.requests.get requestId).map RequestRow.state = some .applied := by
  unfold Tables.withRow at h
  rw [Table.get_modifyAt] at h
  split_ifs at h with hid
  · refine .inl ⟨hid.symm, ?_⟩
    obtain ⟨row', hrow', hstate⟩ := Option.map_eq_some_iff.mp h
    obtain ⟨-, -, rfl⟩ := Option.map_eq_some_iff.mp hrow'
    exact hstate
  · exact .inr h

/-- A request that `finish` completes is the one of the call. -/
theorem settle_complete (hheld : Held s) {record : RequestRow} {state : RequestState}
    (h : (s.settle record state).Complete requestId) :
    (record.command.requestId = requestId ∧ state = .applied) ∨ s.Complete requestId := by
  unfold System.settle Session.finish at h
  split at h
  · rename_i tables hok
    split at hok
    · exact absurd hok (by simp)
    · rename_i row hrow
      split_ifs at hok
      obtain rfl := Except.ok.inj hok
      rcases complete_withRow h with ⟨hid, hstate⟩ | hold
      · exact .inl ⟨(hheld.keyed _ _ hrow).symm.trans hid, hstate⟩
      · exact .inr hold
  · exact .inr h

/-- A request is complete that was it before, or that the step completes. -/
theorem step_complete (hheld : Held s) (h : step H s a = some s') (hc : s'.Complete requestId) :
    s.Complete requestId ∨ completes? H s a = some requestId := by
  -- A row that is tried again stays active, so no retry completes a request.
  have hretry : ∀ record, retryState H record ≠ .applied := by
    intro record heq
    have hactive := retryState_isActive (H := H) record
    rw [heq] at hactive
    exact absurd hactive (by decide)
  cases a with
  | accept command =>
    obtain ⟨hfree, rfl⟩ := unheld_eq_some h
    unfold System.accept at hc
    split at hc
    · rename_i row tables w hok
      -- An accepted request is new and open; the other rows stay.
      unfold Session.accept at hok
      split at hok
      · split at hok <;> simp at hok
      · split at hok
        · exact absurd hok (by simp)
        · split at hok
          · exact absurd hok (by simp)
          · rename_i hstore
            obtain ⟨rfl, rfl⟩ : _ = row ∧ _ = (tables, w) := by simpa using hok
            obtain ⟨rfl, -, hget, -⟩ := storeAccept_ok hstore
            unfold System.Complete at hc
            dsimp only at hc
            rw [hget] at hc
            split_ifs at hc
            · exact absurd hc (by simp)
            · exact .inl hc
    · exact .inl hc
    · exact .inl hc
  | execute id =>
    obtain ⟨hfree, rfl⟩ := unheld_eq_some h
    unfold System.execute at hc
    split at hc
    · exact .inl hc
    · rename_i row hrow
      split_ifs at hc with hclosed hdone hclaim
      · exact .inl hc
      · -- The work is completed already: the row is settled, and that is a projecting step.
        rcases settle_complete hheld hc with ⟨hid, -⟩ | hold
        · refine .inr ?_
          have hexhausted : s.exhausted H id = true := by
            unfold System.exhausted
            rw [hrow]
            simp only [decide_eq_true_eq]
            exact ⟨by tauto, hdone⟩
          have hprojects : projects H s (.execute id) = true := by
            simp [projects, hfree, hexhausted]
          rw [← hid, hheld.keyed _ _ hrow]
          exact if_pos hprojects
        · exact .inl hold
      all_goals
        -- A claim opens the row, and completes nothing.
        rcases complete_withRow hc with ⟨-, hstate⟩ | hold
        · have hclaimed : claimedState H s.tables row = .applied := hstate
          unfold claimedState at hclaimed
          split_ifs at hclaimed
        · exact .inl hold
  | deliver d =>
    obtain ⟨hfree, rfl⟩ := unheld_eq_some h
    exact .inl hc
  | resolveApplied id =>
    obtain ⟨hfree, rfl⟩ := unheld_eq_some h
    unfold System.resolveApplied at hc
    split at hc
    · exact .inl hc
    · rename_i row hrow
      split_ifs at hc with hdone
      · rcases complete_withRow hc with ⟨hid, -⟩ | hold
        · refine .inr ?_
          have hresolvable : s.resolvable H id = true := by
            unfold System.resolvable
            rw [hrow]
            simpa using hdone
          have hkey : id = requestId := (hheld.keyed _ _ hrow).symm.trans hid
          rw [← hkey]
          exact if_pos hresolvable
        · exact .inl hold
      · exact .inl hc
  | cleanup id =>
    obtain ⟨hfree, rfl⟩ := unheld_eq_some h
    exact .inl hc
  | decide =>
    unfold step at h
    dsimp only at h
    split at h
    · rename_i call hrun
      obtain rfl := Option.some.inj h
      -- A decision settles a row only as failed, blocked or to be tried again.
      cases call with
      | api record =>
        unfold System.decide at hc
        dsimp only at hc
        split at hc
        · exact (settle_complete hheld hc).elim (fun h => absurd h.2 (by decide)) .inl
        · exact (settle_complete hheld hc).elim (fun h => absurd h.2 (hretry record)) .inl
        · exact (settle_complete hheld hc).elim (fun h => absurd h.2 (by decide)) .inl
        · exact (settle_complete hheld hc).elim (fun h => absurd h.2 (by decide)) .inl
        · exact .inl hc
        · exact .inl hc
      | executor d =>
        unfold System.decide at hc
        dsimp only at hc
        split at hc <;> exact .inl hc
    · exact absurd h (by simp)
  | node svc =>
    obtain ⟨p, hp, rfl⟩ := Option.map_eq_some_iff.mp h
    unfold System.node at hc
    split at hc
    · exact .inl hc
    · exact .inl hc
    · unfold System.fail at hc
      split at hc <;> exact .inl hc
  | timeout svc commits =>
    obtain ⟨p, hp, h⟩ := Option.bind_eq_some_iff.mp h
    obtain ⟨t, ht, rfl⟩ := Option.map_eq_some_iff.mp h
    unfold System.fail at hc
    split at hc <;> exact .inl hc
  | stop svc commits =>
    obtain ⟨p, hp, h⟩ := Option.bind_eq_some_iff.mp h
    obtain ⟨t, ht, rfl⟩ := Option.map_eq_some_iff.mp h
    exact .inl hc
  | finish =>
    obtain ⟨⟨call, phase⟩, hrun, h⟩ := Option.bind_eq_some_iff.mp h
    unfold System.finish at h
    dsimp only at h
    split at h
    · rename_i record
      obtain rfl := Option.some.inj h
      -- The call has returned: the row is settled by what it returned.
      rcases settle_complete hheld hc with ⟨hid, hstate⟩ | hold
      · refine .inr ?_
        unfold completes?
        rw [hrun]
        exact (if_pos hstate).trans (congrArg some hid)
      · exact .inl hold
    · rename_i record
      obtain rfl := Option.some.inj h
      exact (settle_complete hheld hc).elim (fun h => absurd h.2 (hretry record)) .inl
    · obtain rfl := Option.some.inj h
      exact .inl hc
    · exact absurd h (by simp)
  | die =>
    obtain ⟨p, hp, rfl⟩ := Option.map_eq_some_iff.mp h
    exact .inl hc

/-! ## Every run -/

/-- The invariant of the runs in which a cancelled Task is not taken on. -/
structure Watched (s : System) : Prop where
  rows : Rows s
  home : Home s.thread
  cancelled : ∀ c ∈ s.cancellations, Cancelled c.2 s.thread

/-- A Task for which `cancel_execution` completes is cancelled. -/
theorem Home.cancels (h : Home t) {config : Config} {svc : Services} {after : SessionState}
    {next : Option Node} {wf : WorkflowState} (hwf : t.values.workflow = some wf)
    (hok : (superstep D config svc .cancelExecution t.values t.world).result = .ok (after, next))
    (hvalues : t'.values = after) (hnext : t'.next = next) : Cancelled wf.activeTaskId t' := by
  obtain ⟨hdone, hsucc⟩ := superstep_completed hok
  obtain ⟨wf', hwf', hleft⟩ := superstep_awaited rfl hwf hok
  obtain ⟨hnone, -, -⟩ | ⟨wf₀, wf₁, hwf₀, hwf₁, hcarries⟩ := superstep_carriesOn (by decide) hok
  · exact absurd (hwf.symm.trans hnone) (by simp)
  obtain rfl := Option.some.inj (hwf.symm.trans hwf₀)
  obtain rfl := Option.some.inj (hwf'.symm.trans hwf₁)
  obtain rfl : some .waitExternalSignal = next := Except.ok.inj hsucc
  refine ⟨?_,
    .inl ⟨wf', .waitExternalSignal, hvalues ▸ hwf', hcarries.task, hleft.cancelled rfl, hnext,
    .inl rfl⟩⟩
  rw [hvalues, hdone.requests (by decide)]
  exact (h wf hwf).2

/-- A cancellation is an old one, or it has just been applied by a call that is not finished. -/
theorem Move.cancels (h : Move H s left s') (hheld : Held s) (hhome : Home s.thread)
    {c : Uuid × Uuid} (hc : c ∈ s'.cancellations) :
    c ∈ s.cancellations ∨ (Cancelled c.2 s'.thread ∧ ¬s'.Complete c.1) := by
  have hconcat : ∀ (e : Entry), c ∈ (s.log ++ [e]).filterMap Entry.cancels? →
      c ∈ s.cancellations ∨ e.cancels? = some c := by
    intro e hmem
    obtain ⟨e', he', hview⟩ := List.mem_filterMap.mp hmem
    rcases List.mem_append.mp he' with hold | hnew
    · exact .inl (List.mem_filterMap.mpr ⟨e', hold, hview⟩)
    · obtain rfl := List.mem_singleton.mp hnew
      exact .inr hview
  cases h with
  | free cleanups log hout hlog =>
    rcases hlog with rfl | ⟨d, e, rfl⟩
    · exact .inl hc
    · exact .inl ((hconcat _ hc).resolve_right (by simp [Entry.cancels?]))
  | admitted hfree htarget hstore =>
    exact .inl ((hconcat _ hc).resolve_right (by simp [Entry.cancels?]))
  | died | row | claimed | delivery | nothing | interrupt | broken => exact .inl hc
  | request | event => exact .inl ((hconcat _ hc).resolve_right (by simp [Entry.cancels?]))
  | @checkpoint call n svc after next phase hrun hnext hok =>
    refine (hconcat _ hc).imp_right fun hview => ?_
    unfold Entry.cancels? at hview
    split at hview
    · rename_i record _ before _ heq
      obtain ⟨rfl, rfl, -, rfl, rfl⟩ := Entry.checkpointed.inj heq
      obtain ⟨wf, hwf, rfl⟩ := Option.map_eq_some_iff.mp hview
      refine ⟨hhome.cancels hwf hok rfl rfl, ?_⟩
      -- The call has its row claimed.
      obtain ⟨hrow, hstate⟩ := hheld.held record _ hrun
      unfold System.Complete
      dsimp only
      rw [hrow, Option.map_some, hstate]
      decide
    · exact absurd hview (by simp)

/-- A step that runs no node, and is not the death of a process, starts outside the graph. -/
theorem step_outside (h : step H s a = some s') (hruns : a.runsNode = false) (hdie : a ≠ .die) :
    s.Outside := by
  cases a with
  | accept | execute | deliver | resolveApplied | cleanup =>
    exact outside_of_free (unheld_eq_some h).1
  | decide =>
    unfold step at h
    dsimp only at h
    split at h
    · rename_i call hrun
      exact outside_of_phase hrun (by decide)
    · exact absurd h (by simp)
  | finish =>
    obtain ⟨⟨call, phase⟩, hrun, h⟩ := Option.bind_eq_some_iff.mp h
    refine outside_of_phase hrun ?_
    rintro rfl
    unfold System.finish at h
    dsimp only at h
    split at h <;> simp_all
  | die => exact absurd rfl hdie
  | node | timeout | stop => exact absurd hruns (by simp [Action.runsNode])

/-- Every step of the Session is a move of its thread. -/
theorem step_moved (hheld : Held s) (hlater : Later s a) (h : step H s a = some s') :
    Moved H.deployment s.thread s'.thread := by
  by_cases hdie : a = .die
  · subst hdie
    obtain ⟨p, hp, rfl⟩ := Option.map_eq_some_iff.mp h
    exact .still rfl
  · refine (step_move hheld h).moved fun call n hrun hnext wf hwf hphase => ?_
    cases hruns : a.runsNode with
    | false => exact absurd hrun (step_outside h hruns hdie call)
    | true => exact hlater hruns (call, n) (by simp [System.looping?, hrun, hnext]) wf hwf hphase

/-- A step keeps what is watched. -/
theorem Watched.step (h : Watched s) (hlater : Later s a) (hstep : step H s a = some s') :
    Watched s' := by
  have hmove := step_move h.rows.toHeld hstep
  have hmoved := step_moved h.rows.toHeld hlater hstep
  refine ⟨hmove.rows h.rows, hmoved.home h.home, fun c hc => ?_⟩
  rcases hmove.cancels h.rows.toHeld h.home hc with hold | ⟨hnew, -⟩
  · exact hmoved.cancelled (h.cancelled c hold)
  · exact hnew

/-- A projection keeps it. -/
theorem Watched.projected (h : Watched s) (hp : Projected s s') : Watched s' := by
  refine ⟨?_, hp.home h.home, fun c hc => ?_⟩
  · obtain ⟨w, rfl⟩ := hp.same
    exact h.rows.carry rfl (fun _ he => he) le_rfl (fun _ phase hr => ⟨phase, hr⟩)
      ⟨h.rows.shape.interrupt, h.rows.shape.waits, h.rows.shape.answered⟩ h.rows.given
      (fun _ hint => hint) fun _ ho => .inl ho
  · refine hp.cancelled (h.cancelled c ?_)
    obtain ⟨w, rfl⟩ := hp.same
    exact hc

/-- A projection that raises changes the row of its request at most. -/
theorem unprojected_same (s : System) : (s.unprojected H).thread = s.thread ∧
    (s.unprojected H).log = s.log := by
  unfold System.unprojected
  split
  · unfold System.settle
    split <;> exact ⟨rfl, rfl⟩
  · exact ⟨rfl, rfl⟩

/-- A step that projects starts outside the graph. -/
theorem outside_of_projects (h : projects H s a = true) : s.Outside := by
  unfold projects at h
  split at h
  · exact outside_of_free (Option.isNone_iff_eq_none.mp (Bool.and_eq_true_iff.mp h).1)
  · split at h
    · rename_i hrun
      exact outside_of_phase hrun (by decide)
    · exact absurd h (by simp)
  · split at h
    · rename_i hrun
      exact outside_of_phase hrun (by decide)
    · rename_i hrun
      exact outside_of_phase hrun (by decide)
    · exact absurd h (by simp)
  · exact absurd h (by simp)

/-- A projection that fails keeps it. -/
theorem Watched.unprojected (h : Watched s) (hout : s.Outside) : Watched (s.unprojected H) := by
  obtain ⟨hthread, hlog⟩ := unprojected_same (H := H) s
  refine ⟨?_, hthread ▸ h.home, fun c hc => ?_⟩
  · unfold System.unprojected
    split
    · rename_i record phase hrun
      obtain ⟨hrow, hstate⟩ := h.rows.held record phase hrun
      rw [settle_eq _ hrow (.inr hstate)]
      exact h.rows.write hout hrow (by rw [hstate]; rfl) _ _ none fun _ _ hr => absurd hr (by simp)
    · exact h.rows.rest hout rfl (fun _ he => he) rfl fun _ _ hr => absurd hr (by simp)
  · rw [hthread]
    refine h.cancelled c ?_
    unfold System.cancellations at hc ⊢
    rwa [hlog] at hc

/-- A step with its projection. -/
theorem projectingStep_cases (h : projectingStep H s a = some s') :
    (projects H s a = false ∧ step H s a = some s') ∨
      (projects H s a = true ∧ ∃ shown, Projected s shown ∧ step H shown a = some s') ∨
      (projects H s a = true ∧ (∃ e, s.project = .error e) ∧ s' = s.unprojected H) := by
  unfold projectingStep at h
  split_ifs at h with hp
  · split at h
    · rename_i shown hok
      exact .inr (.inl ⟨hp, shown, project_ok hok, h⟩)
    · rename_i e herr
      exact .inr (.inr ⟨hp, ⟨e, herr⟩, (Option.some.inj h).symm⟩)
  · exact .inl ⟨by simpa using hp, h⟩

/-- A step that projects runs no node. -/
theorem later_of_projects (h : projects H s a = true) (t : System) : Later t a := by
  cases a with
  | node | timeout | stop => exact absurd h (by simp [projects])
  | _ => exact fun hruns => absurd hruns (by simp [Action.runsNode])

/-- So every step with projections does. -/
theorem Watched.projectingStep (h : Watched s) (hlater : Later s a)
    (hstep : projectingStep H s a = some s') : Watched s' := by
  rcases projectingStep_cases hstep with ⟨-, hs⟩ | ⟨hp, shown, hshown, hs⟩ | ⟨hp, -, rfl⟩
  · exact h.step hlater hs
  · exact (h.projected hshown).step (later_of_projects hp shown) hs
  · exact h.unprojected (outside_of_projects hp)

/-- In every reachable state, a cancelled Task is watched. -/
theorem watched_reachable (h : (projecting H).ReachableWhen (fun s a => Later s a) s) :
    Watched s := by
  refine h.invariant ?_ fun s a s' _ hw hlater hstep => hw.projectingStep hlater hstep
  rintro s rfl
  refine ⟨rows_reachable (H := H) (.start rfl), ?_, ?_⟩
  · exact fun wf hwf => absurd hwf (by simp)
  · exact fun c hc => absurd hc (by simp [System.cancellations])

/-- What a step does with a projection it does with the snapshot. -/
theorem Projected.decisions (h : Projected s s') (a : Action) :
    projects H s' a = projects H s a ∧ completes? H s' a = completes? H s a := by
  obtain ⟨w, rfl⟩ := h.same
  cases a <;> exact ⟨rfl, rfl⟩

/-- A cancellation that was visible stays so, in a step that does not hide it. -/
theorem Watched.visible (h : Watched s) (hvisible : Visible s) (hlater : Later s a)
    (hunhidden : Unhidden H s a) (hstep : ExAgent.Session.projectingStep H s a = some s') :
    Visible s' := by
  intro c hc hcomplete
  rcases projectingStep_cases hstep with ⟨hp, hs⟩ | ⟨hp, shown, hshown, hs⟩ | ⟨-, -, rfl⟩
  · -- Nothing is projected.
    have hmove := step_move h.rows.toHeld hs
    rcases hmove.cancels h.rows.toHeld h.home hc with hold | ⟨-, hopen⟩
    · refine (step_moved h.rows.toHeld hlater hs).shows (h.cancelled c hold) ?_
      rcases step_complete h.rows.toHeld hs hcomplete with hbefore | hnow
      · -- The request is completed now, without a projection: nothing may have hidden the
        -- cancellation.
        exact hvisible c hold hbefore
      · intro task htask
        by_cases hended : task.status.isTerminal = true
        · exact .inl hended
        · have hkeeps := hunhidden c hold (.inr hnow) task htask (by simpa using hended)
          rw [if_neg (by simp [hp])] at hkeeps
          rcases hkeeps with hbefore | hstatus
          · exact hvisible c hold hbefore task htask
          · exact .inr hstatus
    · exact absurd hcomplete hopen
  · -- The snapshot is projected first.
    have hw := h.projected hshown
    have hmove := step_move hw.rows.toHeld hs
    have hsame : shown.cancellations = s.cancellations ∧ (shown.Complete c.1 → s.Complete c.1) := by
      obtain ⟨w, rfl⟩ := hshown.same
      exact ⟨rfl, fun hc => hc⟩
    rcases hmove.cancels hw.rows.toHeld hw.home hc with hold | ⟨-, hopen⟩
    · refine (step_moved hw.rows.toHeld (later_of_projects hp shown) hs).shows
        (hw.cancelled c hold) ?_
      have hdone : s.Complete c.1 ∨ completes? H s a = some c.1 := by
        rw [← (hshown.decisions (H := H) a).2]
        exact (step_complete hw.rows.toHeld hs hcomplete).imp_left hsame.2
      -- The Task is shown as it was, or it has ended before the projection.
      rw [hsame.1] at hold
      by_cases hlive : ∃ task, s.thread.world.tasks.get c.2 = some task ∧
        task.status.isTerminal = false
      · obtain ⟨task, htask, hopen⟩ := hlive
        have hshut := hunhidden c hold hdone task htask hopen
        rw [if_pos hp] at hshut
        exact hshown.shows h.home (h.cancelled c hold) hshut
      · have hended : ∀ task, s.thread.world.tasks.get c.2 = some task →
            task.status.isTerminal = true := by
          intro task htask
          by_contra hopen
          exact hlive ⟨task, htask, by simpa using hopen⟩
        intro task htask
        rw [hshown.ended hended] at htask
        exact .inl (hended task htask)
    · exact absurd hcomplete hopen
  · -- The projection has raised.
    obtain ⟨hthread, hlog⟩ := unprojected_same (H := H) s
    have hold : c ∈ s.cancellations := by
      unfold System.cancellations at hc ⊢
      rwa [hlog] at hc
    rw [hthread]
    refine hvisible c hold ?_
    unfold System.unprojected at hcomplete
    split at hcomplete
    · rename_i record _ _
      refine (settle_complete h.rows.toHeld hcomplete).resolve_left fun hnow => ?_
      have hactive := retryState_isActive (H := H) record
      rw [hnow.2] at hactive
      exact absurd hactive (by decide)
    · exact hcomplete

/-- `finish` completes the request it is called for, and no request stops being complete. -/
theorem complete_settle {row : RequestRow}
    (hrow : s.tables.requests.get row.command.requestId = some row)
    (hstate : row.state = .pending ∨ row.state = .running)
    (h : s.Complete requestId ∨ row.command.requestId = requestId) :
    (s.settle row .applied).Complete requestId := by
  rw [settle_eq .applied hrow hstate]
  unfold System.Complete
  dsimp only
  have hget := get_withRow hrow .applied row.attempts requestId
  refine (congrArg (Option.map RequestRow.state) hget).trans ?_
  split_ifs with hid
  · rfl
  · exact h.resolve_right fun heq => hid heq.symm

/-- A step that projects writes nothing else into the tables of the Tasks, and completes what it is
about to complete. -/
theorem projects_step (hheld : Held s) (hp : projects H s a = true) (h : step H s a = some s') :
    s'.thread.world = s.thread.world ∧ (∀ e ∈ s.log, e ∈ s'.log) ∧
      ∀ requestId, s.Complete requestId ∨ completes? H s a = some requestId →
        s'.Complete requestId := by
  -- A settled row is all that changes.
  have hsettle : ∀ (row : RequestRow), s.tables.requests.get row.command.requestId = some row →
      row.state = .pending ∨ row.state = .running →
      (s.settle row .applied).thread = s.thread ∧ (s.settle row .applied).log = s.log := by
    intro row hrow hstate
    rw [settle_eq .applied hrow hstate]
    exact ⟨rfl, rfl⟩
  cases a with
  | execute id =>
    obtain ⟨hfree, rfl⟩ := unheld_eq_some h
    have hexhausted : s.exhausted H id = true := by
      simp only [projects, hfree, Option.isNone_none, Bool.true_and] at hp
      exact hp
    have hcompletes : completes? H s (.execute id) = some id := if_pos hp
    -- A row whose attempts are used up is settled before it runs.
    unfold System.exhausted at hexhausted
    cases hrow : s.tables.requests.get id with
    | none => simp [hrow] at hexhausted
    | some row =>
      rw [hrow] at hexhausted
      simp only [decide_eq_true_eq] at hexhausted
      obtain ⟨hstate, hdone⟩ := hexhausted
      obtain rfl := hheld.keyed _ _ hrow
      have hexecute : s.execute H row.command.requestId = s.settle row .applied := by
        unfold System.execute
        rw [hrow]
        dsimp only
        rw [if_neg (by tauto), if_pos hdone]
      obtain ⟨hthread, hlog⟩ := hsettle row hrow hstate
      rw [hexecute, hthread, hlog, hcompletes]
      exact ⟨rfl, fun _ he => he, fun id hid =>
        complete_settle hrow hstate (hid.imp_right fun heq => Option.some.inj heq)⟩
  | decide =>
    unfold projects at hp
    dsimp only at hp
    split at hp
    · -- A delivery is decided behind its projection, and completes no request.
      rename_i d hrun
      have hstep : s.decide H (.executor d) = s' := by
        unfold step at h
        rw [hrun] at h
        exact Option.some.inj h
      have hnone : ∀ requestId, s.Complete requestId ∨ completes? H s .decide = some requestId →
          s.Complete requestId := fun _ hid => hid.resolve_right (by simp [completes?])
      subst hstep
      unfold System.decide
      dsimp only
      split
      · exact ⟨rfl, fun _ he => List.mem_append_left _ he, hnone⟩
      · exact ⟨(put_core _ _).2.2.2, fun _ he => List.mem_append_left _ he, hnone⟩
    · exact absurd hp (by simp)
  | finish =>
    unfold projects at hp
    dsimp only at hp
    split at hp
    · -- A delivery that ends completes no request.
      rename_i d hrun
      have hstep : { s with
          running := none, log := s.log ++ [.delivered d (deliveryEnd d s.thread)] } = s' := by
        unfold step at h
        rw [hrun] at h
        exact Option.some.inj h
      have hnone : completes? H s .finish = none := by
        unfold completes?
        rw [hrun]
      subst hstep
      rw [hnone]
      exact ⟨rfl, fun _ he => List.mem_append_left _ he, fun _ hid => hid.resolve_right (by simp)⟩
    · -- A request that has returned is settled as applied.
      rename_i record hrun
      have happlied : returnedState H s.thread record = .applied := by simpa using hp
      have hstep : s.settle record (returnedState H s.thread record) = s' := by
        unfold step at h
        rw [hrun] at h
        exact Option.some.inj h
      have hcompletes : completes? H s .finish = some record.command.requestId := by
        unfold completes?
        rw [hrun]
        exact if_pos happlied
      obtain ⟨hrow, hstate⟩ := hheld.held record _ hrun
      rw [happlied] at hstep
      subst hstep
      obtain ⟨hthread, hlog⟩ := hsettle record hrow (.inr hstate)
      rw [hthread, hlog, hcompletes]
      exact ⟨rfl, fun _ he => he, fun id hid =>
        complete_settle hrow (.inr hstate) (hid.imp_right fun heq => Option.some.inj heq)⟩
    · exact absurd hp (by simp)
  | _ => exact absurd hp (by simp [projects])

/-- Without a projection, a step completes a request by `resolve_applied` only. -/
theorem completes_unprojected (hp : projects H s a = false)
    (h : completes? H s a = some requestId) :
    a = .resolveApplied requestId ∧ s.resolvable H requestId = true := by
  unfold completes? at h
  split at h
  · rw [if_neg (by simp [hp])] at h
    exact absurd h (by simp)
  · split at h
    · rename_i record hrun
      split_ifs at h with happlied
      have hprojects : projects H s .finish = true := by
        unfold projects
        rw [hrun]
        simpa using happlied
      exact absurd (hprojects.symm.trans hp) (by decide)
    · exact absurd h (by simp)
  · split_ifs at h with hres
    obtain rfl := Option.some.inj h
    exact ⟨rfl, hres⟩
  · exact absurd h (by simp)

/-- `resolve_applied` completes its request and leaves everything else alone. -/
theorem resolve_step (hheld : Held s) (hres : s.resolvable H requestId = true)
    (h : step H s (.resolveApplied requestId) = some s') :
    s'.thread = s.thread ∧ s'.log = s.log ∧ s'.Complete requestId := by
  obtain ⟨hfree, rfl⟩ := unheld_eq_some h
  unfold System.resolvable at hres
  cases hrow : s.tables.requests.get requestId with
  | none => simp [hrow] at hres
  | some row =>
    rw [hrow] at hres
    obtain rfl := hheld.keyed _ _ hrow
    have hstep : s.resolveApplied H row.command.requestId =
        { s with tables := s.tables.withRow { row with state := .applied } } := by
      unfold System.resolveApplied
      rw [hrow]
      exact if_pos (by simpa using hres)
    rw [hstep]
    refine ⟨rfl, rfl, ?_⟩
    have hget := get_withRow hrow .applied row.attempts row.command.requestId
    rw [if_pos rfl] at hget
    exact congrArg (Option.map RequestRow.state) hget

/-- The step that hides a cancellation: it projects an open interrupt of the Task, or it completes
the request while the Task shows something else. -/
theorem Watched.hides (h : Watched s) (hstep : ExAgent.Session.projectingStep H s a = some s')
    (hhidden : ¬Unhidden H s a) : ¬Visible s' := by
  unfold Unhidden at hhidden
  push Not at hhidden
  obtain ⟨c, hc, hdone, task, htask, hopen, hhidden⟩ := hhidden
  intro hvisible
  rcases projectingStep_cases hstep with ⟨hp, hs⟩ | ⟨hp, shown, hshown, hs⟩ | ⟨hp, ⟨e, herr⟩, rfl⟩
  · rw [if_neg (by simp [hp]), not_or] at hhidden
    obtain ⟨rfl, hres⟩ := completes_unprojected hp (hdone.resolve_left hhidden.1)
    obtain ⟨hthread, hlog, hcomplete⟩ := resolve_step h.rows.toHeld hres hs
    have hmem : c ∈ s'.cancellations := by
      unfold System.cancellations at hc ⊢
      rwa [hlog]
    have hshows := hvisible c hmem hcomplete
    rw [hthread] at hshows
    rcases hshows task htask with hend | hstatus
    · exact absurd (hend.symm.trans hopen) (by decide)
    · exact hhidden.2 hstatus
  · rw [if_pos hp] at hhidden
    have hw := h.projected hshown
    obtain ⟨hprojects, hcompletes⟩ := hshown.decisions (H := H) a
    obtain ⟨hworld, hlog, hcomplete⟩ := projects_step hw.rows.toHeld (hprojects.trans hp) hs
    have hsame : shown.log = s.log ∧ (s.Complete c.1 → shown.Complete c.1) := by
      obtain ⟨w, rfl⟩ := hshown.same
      exact ⟨rfl, fun hc => hc⟩
    have hmem : c ∈ s'.cancellations := by
      obtain ⟨e, he, hview⟩ := List.mem_filterMap.mp hc
      exact List.mem_filterMap.mpr ⟨e, hlog e (hsame.1.symm ▸ he), hview⟩
    have hshows :=
      hvisible c hmem (hcomplete c.1 (hdone.imp hsame.2 fun heq => hcompletes.trans heq))
    rw [hworld] at hshows
    exact hshown.hides h.home (h.cancelled c hc) hhidden htask hopen hshows
  · rw [if_pos hp] at hhidden
    exact project_total h.home (h.cancelled c hc) hhidden htask hopen e herr

end

/-! ## The result -/

/-- In every run after whose cancellations nothing but the Executor's unfinished work follows, an
accepted cancellation stays visible as long as no step hides it, and a step that hides one does so
at once. -/
theorem cancel_visible (H : Host) :
    (∀ s, (projecting H).ReachableWhen (fun s a => Later s a ∧ Unhidden H s a) s → Visible s) ∧
      ∀ s a s', (projecting H).ReachableWhen (fun s a => Later s a) s →
        (projecting H).step s a = some s' → ¬Unhidden H s a → ¬Visible s' := by
  constructor
  · intro s hs
    suffices hboth : Watched s ∧ Visible s from hboth.2
    induction hs with
    | start hs =>
      refine ⟨watched_reachable (H := H) (.start hs), fun c hc => ?_⟩
      obtain rfl := hs
      exact absurd hc (by simp [System.cancellations])
    | next _ hc hstep ih =>
      exact ⟨ih.1.projectingStep hc.1 hstep, ih.1.visible ih.2 hc.1 hc.2 hstep⟩
  · exact fun s a s' hs hstep hhidden => (watched_reachable hs).hides hstep hhidden

namespace Sample

/-- Task 7 is cancelled by request 63, up to the interrupt of the wait. -/
def cancelling : List Action :=
  waiting ++ [.accept cancel, .execute 63, .decide, .node {},
    .node { command := .ok ⟨30, some 40, 2⟩ }, .node {}]

/-- The call that has applied the cancellation finishes. -/
def hidden : List Action := cancelling ++ [.finish]

/-- The host dies before it has projected the wait, a delivery dies in the middle of the graph, and
the request is finished by its recovery. -/
def showing : List Action :=
  cancelling ++ [.die, .deliver completed, .decide, .node {}, .die, .execute 63, .decide, .finish]

/-- The state that a list of actions leads to, with projections. -/
def projected (actions : List Action) : System := ((projecting host).run {} actions).getD {}

/-- The same for steps that meet a condition. -/
theorem projected_reachableWhen {C : System → Action → Prop} [∀ s a, Decidable (C s a)]
    {actions : List Action} (h : ((projecting host).runIf C {} actions).isSome = true) :
    (projecting host).ReachableWhen C (projected actions) := by
  obtain ⟨s, hs⟩ := Option.isSome_iff_exists.mp h
  have heq : projected actions = s := by
    unfold projected
    rw [Machine.run_of_runIf hs]
    rfl
  rw [heq]
  exact Machine.ReachableWhen.runIf (.start rfl) hs

end Sample

/-- The recovered cancellation of Task 7 is complete, and it shows. -/
theorem cancel_visible_showing : Visible (Sample.projected Sample.showing) ∧
    (63, 7) ∈ (Sample.projected Sample.showing).cancellations ∧
    (Sample.projected Sample.showing).Complete 63 ∧
    ((Sample.projected Sample.showing).thread.world.tasks.get 7).map TaskRow.status =
      some .cancelRequested :=
  ⟨(cancel_visible Sample.host).1 _ (Sample.projected_reachableWhen rfl),
    List.mem_singleton_self _, rfl, rfl⟩

/-- The call that applies the cancellation of Task 7 hides it itself. -/
theorem not_cancel_visible :
    ¬∀ s, (projecting Sample.host).ReachableWhen (fun s a => Later s a) s → Visible s := by
  intro h
  have hreached : (projecting Sample.host).ReachableWhen (fun s a => Later s a)
      (Sample.projected Sample.hidden) := Sample.projected_reachableWhen rfl
  have hvisible := h _ hreached
  have hshows := hvisible (63, 7) (List.mem_singleton_self _) rfl
  have hstatus : ((Sample.projected Sample.hidden).thread.world.tasks.get 7).map TaskRow.status =
      some .waitingForExecutorEvent := rfl
  obtain ⟨task, htask, hwaits⟩ := Option.map_eq_some_iff.mp hstatus
  rcases hshows task htask with hend | hshown
  · rw [hwaits] at hend
    exact absurd hend (by decide)
  · exact absurd (hwaits.symm.trans hshown) (by decide)

end ExAgent.Session
